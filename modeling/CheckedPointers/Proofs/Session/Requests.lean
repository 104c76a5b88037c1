import CheckedPointers.Proofs.Session.Indexing
import CheckedPointers.Proofs.Session.Linking
import CheckedPointers.Proofs.Session.Repair
import CheckedPointers.Proofs.Session.Steps

/-!
The sessions that can come about: whatever is asked of a session in whatever order, as long as no
request breaks a rule. All of them are well formed.
-/
namespace CheckedPointers

open Op

inductive Session.Request where
  | enter (u : TranslationUnit)
  | exit
  | giveVariables (u : TranslationUnit) (d : DeclId)
  | noteFunction (u : TranslationUnit) (func : DeclId)
  | flagArray (u : TranslationUnit) (d : DeclId)
  | addArraySize (u : TranslationUnit) (d : DeclId) (size : ExprId)
  | implicitPrototype (u : TranslationUnit) (func : DeclId)
  | denoteDecl (u : TranslationUnit) (d : DeclId) (view : Viewpoint)
  | denote (u : TranslationUnit) (e : ExprId) (view : Viewpoint)
  | flow (u : TranslationUnit)
  | freshAtom
  | addConstraint (c : Constraint)
  | boundBelow (v : VarId) (c : Category)
  | boundSet (set : VarSet) (c : Category)
  | equate (a b : VarId)
  | equateSets (x y : VarSet)
  | link
  | repair (sol : Solution)

namespace Session

variable {options : Options} {s t : Session}

def Request.run : Request → Op PUnit
  | enter u => Session.enter u
  | exit => Session.exit
  | giveVariables u d => discard (Session.giveVariables u d)
  | noteFunction u func => Session.noteFunction u func
  | flagArray u d => Session.flagArray u d
  | addArraySize u d size => Session.addArraySize u d size
  | implicitPrototype u func => discard (Session.implicitPrototype u func)
  | denoteDecl u d view => discard (Session.denoteDecl u d view)
  | denote u e view => discard (Session.denote u e view)
  | flow u => discard (Session.flow u)
  | freshAtom => discard Session.freshAtom
  | addConstraint c => discard (Session.addConstraint c)
  | boundBelow v c => discard (Session.boundBelow v c)
  | boundSet set c => discard (Session.boundSet set c)
  | equate a b => Session.equate a b
  | equateSets x y => Session.equateSets x y
  | link => discard Session.link
  | repair sol => discard (Session.repair sol)

/-- A session that comes of requests, each of which ends or is given up. -/
inductive Reachable (options : Options) : Session → Prop where
  | new : Reachable options (new options)
  | request {s t : Session} {b : Bool} (r : Request) : Reachable options s →
      (attempt r.run).Ends s b t → Reachable options t

/-- A request that ends leads to a session that can come about. -/
theorem Reachable.ended {r : Request} (h : Reachable options s) (hends : r.run.Ends s ⟨⟩ t) :
    Reachable options t :=
  h.request (b := true) r (ends_attempt.2 (.inl ⟨rfl, hends⟩))

theorem countStatement_meets {x : Op PUnit} (h : Meets .visits x s fun _ _ => True) :
    Meets .visits (countStatement x) s fun _ _ => True := by
  apply Meets.bind h.attempted
  intro b t _ _
  split <;> exact Meets.pure trivial

theorem followStmt_meets (u : TranslationUnit) (func : DeclId) (st : Stmt) (hs : s.WellFormed) :
    Meets .visits (followStmt u func st) s fun _ _ => True := by
  cases st with
  | expr e => exact (follow_meets u .body e hs).any
  | ret value =>
    cases value with
    | some value => exact (followReturn_meets u func value hs).any
    | none => exact Meets.pure trivial
  | block _ => exact Meets.pure trivial
  | decl d =>
    refine Meets.bind_lift fun decl _ => ?_
    split
    · exact (followInitializer_meets u .body d _ hs).any
    · exact Meets.pure trivial

theorem flowStmts_meets (u : TranslationUnit) (func : DeclId) (sts : List Stmt)
    (hs : s.WellFormed) : Meets .visits (flowStmts u func sts) s fun _ _ => True := by
  induction sts generalizing s with
  | nil => exact Meets.pure trivial
  | cons st rest ih =>
    refine Meets.bind (countStatement_meets (followStmt_meets u func st hs)) fun _ t hst _ => ?_
    exact Meets.bind (ih (hst.wellFormed hs)) fun _ _ _ _ => Meets.pure trivial

theorem flowDecl_meets (u : TranslationUnit) (id : DeclId) (hs : s.WellFormed) :
    Meets .visits (flowDecl u id) s fun _ _ => True := by
  refine Meets.bind_lift fun d _ => ?_
  split
  · exact countStatement_meets (followInitializer_meets u .declaration id _ hs).any
  · exact Meets.bind (flowStmts_meets u id _ hs) fun _ _ _ _ => Meets.pure trivial
  · exact Meets.pure trivial

/-- To follow a unit is a visit. -/
theorem flow_meets (u : TranslationUnit) (hs : s.WellFormed) :
    Meets .visits (flow u) s fun _ _ => True := by
  unfold flow
  induction u.topLevel generalizing s with
  | nil => exact Meets.pure trivial
  | cons id rest ih =>
    refine Meets.bind (flowDecl_meets u id hs) fun _ t hst _ => ?_
    exact Meets.bind (ih (hst.wellFormed hs)) fun _ _ _ _ => Meets.pure trivial

/-- No request does harm. -/
theorem Request.run_meets (r : Request) (hs : s.WellFormed) :
    Meets .indexes r.run s fun _ _ => True := by
  have visit {α : Type} {x : Op α} (h : Meets .visits x s fun _ _ => True) :
      Meets .indexes (discard x) s fun _ _ => True := (Meets.discard h).to_follows.to_indexes
  have record {α : Type} {x : Op α} (h : Meets .records x s fun _ _ => True) :
      Meets .indexes (discard x) s fun _ _ => True := visit h.to_creates.to_visits
  cases r with
  | enter u => exact (enter_meets u s).any.to_indexes
  | exit => exact (exit_meets s).any.to_indexes
  | giveVariables u d => exact Meets.discard (giveVariables_meets u d hs).any
  | noteFunction u func => exact (noteFunction_meets u func s).any
  | flagArray u d => exact (flagArray_meets u d s).to_follows.to_indexes
  | addArraySize u d size => exact (addArraySize_meets u d size s).to_follows.to_indexes
  | implicitPrototype u func => exact visit (implicitPrototype_recalls u func hs).any
  | denoteDecl u d view => exact visit (denoteDecl_recalls u d view hs).any
  | denote u e view => exact visit (denote_recalls u e view hs).any
  | flow u => exact visit (flow_meets u hs)
  | freshAtom => exact visit (freshAtom_meets s).any.to_visits
  | addConstraint c => exact record (addConstraint_meets c s).any
  | boundBelow v c => exact record (boundBelow_meets v c s).any
  | boundSet set c => exact record (boundSet_meets set c s).any
  | equate a b => exact (equate_meets a b s).any.to_creates.to_visits.to_follows.to_indexes
  | equateSets x y => exact (equateSets_visits x y s).any.to_follows.to_indexes
  | link => exact record (link_meets s).any
  | repair sol => exact record (repair_repairs sol hs).any

def requests (rs : List Request) : Op PUnit := rs.forM fun r => discard (attempt r.run)

/-- What each of some requests does to sessions that can come about, all of them do one after
another. -/
theorem relates_of_requests {P : Session → Session → Prop} {rs : List Request}
    (hrefl : ∀ s, P s s)
    (htrans : ∀ s t w, Reachable options s → P s t → P t w → P s w)
    (hstep : ∀ r ∈ rs, ∀ s b t, Reachable options s → (attempt r.run).Ends s b t → P s t)
    (hs : Reachable options s) (h : (requests rs).Ends s ⟨⟩ t) : P s t := by
  induction rs generalizing s with
  | nil =>
    obtain ⟨-, rfl⟩ := ends_pure.1 h
    exact hrefl s
  | cons r rest ih =>
    obtain ⟨_, w, hfirst, hrest⟩ := ends_bind.1 h
    obtain ⟨b, hfirst⟩ := ends_discard.1 hfirst
    have hsw : P s w := hstep r List.mem_cons_self s b w hs hfirst
    have hwt : P w t :=
      ih (fun r' hr' => hstep r' (List.mem_cons_of_mem r hr')) (hs.request r hfirst) hrest
    exact htrans s w t hs hsw hwt

/-- Requests lead from sessions that can come about to such sessions. -/
theorem Reachable.requests {rs : List Request} (h : Reachable options s)
    (hends : (requests rs).Ends s ⟨⟩ t) : Reachable options t :=
  relates_of_requests (P := fun s t => Reachable options s → Reachable options t)
    (fun _ hs => hs) (fun _ _ _ _ hst htw hs => htw (hst hs))
    (fun r _ _ _ _ _ hends hs => hs.request r hends) h hends h

theorem Request.indexes (r : Request) {b : Bool} (hs : s.WellFormed)
    (h : (attempt r.run).Ends s b t) : s.Indexes t := (r.run_meets hs).rel_of_attempt h

theorem Reachable.wellFormed (h : Reachable options s) : s.WellFormed := by
  induction h with
  | new => exact wellFormed_new options
  | request r _ hends ih => exact (r.indexes ih hends).wellFormed ih

/-- No request changes the options. -/
theorem Reachable.options_eq (h : Reachable options s) : s.options = options := by
  induction h with
  | new => rfl
  | request r hs hends ih => exact (r.indexes hs.wellFormed hends).options.trans ih

/-- Requests take nothing off an anchor, and put no second function there. -/
theorem indexes_of_requests {rs : List Request} (hs : Reachable options s)
    (h : (requests rs).Ends s ⟨⟩ t) : s.Indexes t :=
  relates_of_requests Indexes.refl (fun _ _ _ _ => Indexes.trans)
    (fun r _ _ _ _ hs hends => r.indexes hs.wellFormed hends) hs h

/-- Requests only add to a session. -/
theorem extends_of_requests {rs : List Request} (hs : Reachable options s)
    (h : (requests rs).Ends s ⟨⟩ t) : s.Extends t := (indexes_of_requests hs h).toExtends

end Session

end CheckedPointers
