import CheckedPointers.Proofs.Session.Equations
import CheckedPointers.Proofs.Session.Looking

/-!
Following a unit, linking and repair, however they end: every step looks something up, records a
constraint on atoms that are there or collects a size. That the atoms are there is what the session
being well formed is needed for, since a constraint on others is recorded before it faults.
-/
namespace CheckedPointers

open Op

namespace Session

variable {s t : Session} {u : TranslationUnit} {view : Viewpoint} {e : ExprId} {sol : Solution}

/-! ## Recording -/

theorem addConstraint_visiting {c : Constraint} (hc : c.Known s.solver.cells.size) :
    Leaves .visiting (addConstraint c) s := by
  obtain ⟨b, hb⟩ := addConstraint_ends_in hc
  exact .of_final hb (VisitStep.visiting fun _ => .records (records_add hc))

theorem size_of_addConstraint {c : Constraint} {b : Bool} (h : (addConstraint c).Ends s b t) :
    t.solver.cells.size = s.solver.cells.size := (known_of_addConstraint h).1.size

theorem boundAtoms_visiting {c : Category} {atoms : List Atom}
    (h : ∀ a ∈ atoms, a < s.solver.cells.size) : Leaves .visiting (boundAtoms c atoms) s := by
  induction atoms generalizing s with
  | nil => exact .pure
  | cons a rest ih =>
    obtain ⟨ha, hrest⟩ := List.forall_mem_cons.1 h
    have hknown : (Constraint.atLeast a c).Known s.solver.cells.size := ha
    apply (addConstraint_visiting hknown).bind
    intro _ t ht
    apply (ih (size_of_addConstraint ht ▸ hrest)).bind
    exact fun _ _ _ => .pure

/-- Constraints on atoms that are there are recorded one after another. -/
theorem recordAll_visiting {ε : Type} {f : ε → Constraint} {l : List ε}
    (h : ∀ x ∈ l, (f x).Known s.solver.cells.size) :
    Leaves .visiting (l.forM fun x => discard (addConstraint (f x))) s := by
  induction l generalizing s with
  | nil => exact .pure
  | cons x rest ih =>
    obtain ⟨hx, hrest⟩ := List.forall_mem_cons.1 h
    change Leaves .visiting (discard (addConstraint (f x)) >>= fun _ =>
      rest.forM fun x => discard (addConstraint (f x))) s
    apply (addConstraint_visiting hx).discard.bind
    intro _ t ht
    obtain ⟨b, ht⟩ := ends_discard.1 ht
    exact ih (size_of_addConstraint ht ▸ hrest)

theorem boundBelow_visiting (v : VarId) (c : Category) : Leaves .visiting (boundBelow v c) s := by
  apply Leaves.intro
  intro hs
  apply Leaves.bind_get
  apply Leaves.bind_known
  intro atoms hatoms
  exact boundAtoms_visiting fun a ha => hs.arena.atom_lt_of_owns ⟨atoms, hatoms, ha⟩

theorem boundSet_visiting (set : VarSet) (c : Category) : Leaves .visiting (boundSet set c) s := by
  unfold boundSet
  induction set.members generalizing s with
  | nil => exact .pure
  | cons v rest ih => exact (boundBelow_visiting v c).bind fun _ _ _ => ih.bind fun _ _ _ => .pure

theorem equate_visiting (a b : VarId) : Leaves .visiting (equate a b) s := by
  apply Leaves.intro
  intro hs
  apply Leaves.bind_get
  apply Leaves.bind_known
  intro eqs heqs
  apply recordAll_visiting
  intro x hx
  obtain ⟨hleft, hright⟩ := hs.arena.findsBetween _ heqs x hx
  exact ⟨hleft.elim hs.arena.atom_lt_of_owns hs.arena.atom_lt_of_owns,
    hright.elim hs.arena.atom_lt_of_owns hs.arena.atom_lt_of_owns⟩

theorem equateSets_visiting (x y : VarSet) : Leaves .visiting (equateSets x y) s :=
  Leaves.forM fun a _ _ => Leaves.forM fun b _ _ => equate_visiting a b

/-! ## Assignments and calls -/

theorem collects_visiting {o : OpenUnit} (ho : s.opened = some o)
    (found : List (DeclId × List ExprId)) :
    Frame.visiting.rel s { s with opened := some { o with candidates := found } } :=
  VisitStep.visiting fun _ => .collects ho found

theorem flagArray_visiting (target : DeclId) : Leaves .visiting (flagArray u target) s := by
  apply Leaves.bind_current
  intro o ho
  apply Leaves.modify
  unfold OpenUnit.addCandidate
  split
  · exact collects_visiting ho.1 o.candidates
  · exact collects_visiting ho.1 _

theorem addArraySize_visiting (target : DeclId) (size : ExprId) :
    Leaves .visiting (addArraySize u target size) s := by
  apply Leaves.bind_current
  intro o ho
  split
  · exact Leaves.modify (collects_visiting ho.1 _)
  · exact Leaves.bind_lift fun _ _ => .fault

theorem noteAllocation_visiting (target : DeclId) :
    Leaves .visiting (noteAllocation u target e) s := by
  apply Leaves.bind_lift
  intro size _
  split
  · exact (flagArray_visiting target).bind fun _ _ _ => addArraySize_visiting target _
  · exact .pure

theorem denote_visiting : Leaves .visiting (denote u e view) s := denote_looking.to_visiting

theorem flowThroughCast_visiting (targets : VarSet) (ty : CType) :
    Leaves .visiting (flowThroughCast u view targets ty e) s := by
  apply Leaves.bind_get
  apply Leaves.bind_lift
  intro allowed _
  split
  · exact .pure
  · apply denote_visiting.bind
    intro set t _
    apply Leaves.bind_lift
    intro declared _
    dsimp only
    split
    · split
      · exact (boundSet_visiting set .leastSafe).discard.bind fun _ _ _ => equateSets_visiting _ _
      · exact equateSets_visiting _ _
    · exact equateSets_visiting _ _

theorem flowInto_visiting (targets : VarSet) (named : Option DeclId) :
    Leaves .visiting (flowInto u view targets named e) s := by
  have hvalue : ∀ s, Leaves .visiting (flowInto u view targets none e) s := by
    intro s
    apply Leaves.bind_lift
    intro core _
    apply Leaves.bind_lift
    intro y _
    split
    · exact flowThroughCast_visiting targets _
    · apply Leaves.bind_get
      apply Leaves.bind_lift
      intro allowed _
      split
      · exact .pure
      · exact denote_visiting.bind fun _ _ _ => equateSets_visiting _ _
  cases named with
  | none => exact hvalue s
  | some target => exact (noteAllocation_visiting target).bind fun _ t _ => hvalue t

theorem needBounds_visiting : Leaves .visiting (needBounds u view e) s := by
  apply denote_visiting.bind
  intro set t _
  apply Leaves.forM
  intro v _ w
  apply Leaves.intro
  intro hw
  apply Leaves.bind_get
  split
  · next a ha =>
    obtain ⟨p, hp, ha⟩ := Option.bind_eq_some_iff.1 ha
    have hknown : (Constraint.atLeast a .arr).Known w.solver.cells.size :=
      hw.arena.atom_lt hp (List.mem_of_head? ha)
    exact (addConstraint_visiting hknown).discard
  · exact .pure

theorem passArguments_visiting (slots : List VarSet) (args : List ExprId) :
    Leaves .visiting (passArguments u view slots args) s := by
  induction args generalizing slots s with
  | nil =>
    rw [passArguments]
    exact .pure
  | cons arg rest ih =>
    rw [passArguments]
    apply denote_visiting.bind
    intro values t _
    cases slots with
    | nil => exact (boundSet_visiting values .leastSafe).discard.bind fun _ _ _ => ih []
    | cons slot slots => exact (equateSets_visiting slot values).bind fun _ _ _ => ih slots

theorem calleeVariables_visiting (call : ExprId) :
    Leaves .visiting (calleeVariables u view call e) s := by
  apply Leaves.bind_lift
  intro target _
  split
  · apply Leaves.bind_lift
    intro d _
    split
    · exact (denoteDecl_looking _).to_visiting
    · exact .unresolved
  · exact denote_visiting

theorem followCall_visiting (call : ExprId) (args : List ExprId) :
    Leaves .visiting (followCall u view call e args) s := by
  apply Leaves.bind_get
  apply Leaves.bind_lift
  intro allowed _
  split
  · exact .pure
  · apply (calleeVariables_visiting call).bind
    intro candidates t _
    apply Leaves.bind_get
    dsimp only
    split
    · exact passArguments_visiting _ args
    · exact .pure

/-! ## Expressions and statements followed -/

theorem followNode_visiting (y : Expr) : Leaves .visiting (followNode u view e y) s := by
  cases y with
  | subscript base index =>
    apply Leaves.bind_lift
    intro zero _
    split
    · exact needBounds_visiting
    · exact .pure
  | binary op lhs rhs =>
    cases op with
    | assign =>
      apply denote_visiting.bind
      intro targets t _
      exact Leaves.bind_lift fun named _ => flowInto_visiting targets named
    | _ => exact .pure
  | call callee args => exact followCall_visiting e args
  | stringLiteral _ => exact denote_visiting.discard
  | _ => exact .pure

theorem followWithin_visiting (n : Nat) : Leaves .visiting (followWithin u view n e) s := by
  induction n generalizing e s with
  | zero => exact .unresolved
  | succ n ih =>
    apply Leaves.bind_lift
    intro y _
    exact (followNode_visiting y).bind fun _ _ _ => Leaves.forM fun _ _ _ => ih

theorem followInitializer_visiting (d : DeclId) :
    Leaves .visiting (followInitializer u view d e) s := by
  apply (denoteDecl_looking d).to_visiting.bind
  intro targets t _
  exact (flowInto_visiting targets (some d)).bind fun _ _ _ => followWithin_visiting _

theorem followReturn_visiting (func : DeclId) : Leaves .visiting (followReturn u func e) s := by
  have hreturns : Leaves .visiting (declaredReturns u func) s :=
    (storedFor_looking func).to_visiting.bind fun _ _ _ => Leaves.bind_get .pure
  apply hreturns.bind
  intro returns t _
  exact (flowInto_visiting returns none).bind fun _ _ _ => followWithin_visiting _

theorem followStmt_visiting (func : DeclId) (st : Stmt) :
    Leaves .visiting (followStmt u func st) s := by
  cases st with
  | expr e => exact followWithin_visiting _
  | ret value =>
    cases value with
    | some value => exact followReturn_visiting func
    | none => exact .pure
  | block _ => exact .pure
  | decl d =>
    apply Leaves.bind_lift
    intro decl _
    split
    · exact followInitializer_visiting d
    · exact .pure

theorem countStatement_visiting {y : Op PUnit} (h : Leaves .visiting y s) :
    Leaves .visiting (countStatement y) s := by
  apply h.attempt.bind
  intro b t _
  split <;> exact .pure

theorem flowStmts_visiting (func : DeclId) (sts : List Stmt) :
    Leaves .visiting (flowStmts u func sts) s := by
  induction sts generalizing s with
  | nil => exact .pure
  | cons st rest ih =>
    apply (countStatement_visiting (followStmt_visiting func st)).bind
    exact fun _ _ _ => ih.bind fun _ _ _ => .pure

theorem flowDecl_visiting (id : DeclId) : Leaves .visiting (flowDecl u id) s := by
  apply Leaves.bind_lift
  intro d _
  split
  · exact countStatement_visiting (followInitializer_visiting id)
  · exact (flowStmts_visiting id _).bind fun _ _ _ => .pure
  · exact .pure

/-- Following a unit only visits, wherever it stops. -/
theorem flow_visiting : Leaves .visiting (flow u) s := by
  unfold flow
  induction u.topLevel generalizing s with
  | nil => exact .pure
  | cons id rest ih => exact (flowDecl_visiting id).bind fun _ _ _ => ih.bind fun _ _ _ => .pure

/-! ## Linking -/

theorem chain_visiting {α : Type} {f : VarId → VarId → Op α} {l : List VarId}
    (h : ∀ a b s, Leaves .visiting (f a b) s) : Leaves .visiting (chain f l) s := by
  induction l generalizing s with
  | nil => exact .pure
  | cons a rest ih =>
    cases rest with
    | nil => exact .pure
    | cons b rest => exact (h a b s).bind fun _ _ _ => ih.bind fun _ _ _ => .pure

theorem boundSignature_visiting (f : FunctionVariable) (c : Category) :
    Leaves .visiting (boundSignature f c) s :=
  Leaves.forM fun slot _ _ => (boundSet_visiting slot c).discard

theorem reconcile_visiting (a b : VarId) : Leaves .visiting (reconcile a b) s := by
  apply Leaves.bind_get
  dsimp only
  split
  · apply (equateSets_visiting _ _).bind
    intro _ t _
    split
    · apply Leaves.bind (Leaves.forM fun slots _ _ => equateSets_visiting slots.1 slots.2)
      exact fun _ _ _ => .pure
    · split
      · apply (boundSignature_visiting _ _).bind
        intro _ w _
        exact (boundSignature_visiting _ _).bind fun _ _ _ => .pure
      · exact .pure
  · exact .pure

theorem mergeDeclarations_visiting : Leaves .visiting mergeDeclarations s := by
  apply Leaves.bind_get
  split
  · have hall : ∀ t, Leaves .visiting
        (s.globals.values.mapM fun variants => chain reconcile (bodiless s.arena variants)) t := by
      intro t
      induction s.globals.values generalizing t with
      | nil => exact .pure
      | cons variants rest ih =>
        rw [List.mapM_cons]
        apply (chain_visiting fun a b _ => reconcile_visiting a b).bind
        exact fun _ w _ => (ih w).bind fun _ _ _ => .pure
    exact (hall s).bind fun _ _ _ => .pure
  · exact .pure

theorem boundName_visiting (name : String) : Leaves .visiting (boundName name) s := by
  apply Leaves.bind_get
  apply Leaves.forM
  intro v _ t
  apply Leaves.bind_get
  split
  · exact boundSignature_visiting _ _
  · exact .pure

/-- Linking takes steps of a visit only: it adds constraints. -/
theorem link_visiting : Leaves .visiting link s := by
  apply Leaves.bind_get
  split
  · exact .fault
  · have hshared : ∀ l : List VarSet, Leaves .visiting
        (l.forM fun set => discard (chain equate set.members)) s := fun l =>
      Leaves.forM fun set _ _ => (chain_visiting fun a b _ => equate_visiting a b).discard
    apply (hshared _).bind
    intro _ t _
    apply mergeDeclarations_visiting.bind
    intro merged w _
    apply Leaves.bind (Leaves.forM fun name _ _ => boundName_visiting name)
    exact fun _ _ _ => Leaves.bind_get .pure

/-! ## Repair -/

theorem raise_visiting (v : VarId) (c : Category) : Leaves .visiting (raise sol v c) s := by
  apply Leaves.intro
  intro hs
  apply Leaves.bind_get
  split
  · next p hp =>
    apply Leaves.bind
      (recordAll_visiting (f := fun a => .atLeast a c) fun a ha => hs.arena.atom_lt hp ha)
    exact fun _ _ _ => .pure
  · exact .pure

theorem repairReturn_visiting (d d' : VarId) : Leaves .visiting (repairReturn sol d d') s := by
  apply Leaves.bind_get
  dsimp only
  split
  · exact raise_visiting _ _
  · split
    · exact .pure
    · split
      · split
        · exact raise_visiting _ _
        · exact .pure
      · exact .pure

theorem repairParam_visiting (d d' : VarId) : Leaves .visiting (repairParam sol d d') s := by
  apply Leaves.bind_get
  dsimp only
  split
  · exact .pure
  · split
    · split
      · exact raise_visiting _ _
      · exact .pure
    · exact .pure

theorem repairSlot_visiting {repair : VarId → VarId → Op Bool} (x y : VarSet)
    (h : ∀ a b s, Leaves .visiting (repair a b) s) :
    Leaves .visiting (repairSlot repair sol x y) s := by
  apply Leaves.bind_get
  dsimp only
  split
  · exact h _ _ s
  · exact .pure

theorem repairParams_visiting (slots : List (VarSet × VarSet)) :
    Leaves .visiting (repairParams sol slots) s := by
  induction slots generalizing s with
  | nil => exact .pure
  | cons slot rest ih =>
    apply (repairSlot_visiting slot.1 slot.2 fun a b _ => repairParam_visiting a b).bind
    exact fun _ _ _ => ih.bind fun _ _ _ => .pure

theorem repairDeclaration_visiting (d d' : VarId) :
    Leaves .visiting (repairDeclaration sol d d') s := by
  apply Leaves.bind_get
  dsimp only
  split
  · apply (repairSlot_visiting _ _ fun a b _ => repairReturn_visiting a b).bind
    intro first t _
    split
    · exact (repairParams_visiting _).bind fun _ _ _ => .pure
    · exact .pure
  · exact .pure

theorem repairAll_visiting (d : VarId) (ds : List VarId) :
    Leaves .visiting (repairAll sol d ds) s := by
  induction ds generalizing s with
  | nil => exact .pure
  | cons d' rest ih =>
    have hrest : ∀ first t, Leaves .visiting (do
        let others ← repairAll sol d rest
        return first || others) t := fun _ _ => ih.bind fun _ _ _ => .pure
    rw [repairAll]
    split
    · exact Leaves.pure.bind fun _ _ _ => hrest _ _
    · exact (repairDeclaration_visiting d d').bind fun _ _ _ => hrest _ _

theorem repairKeys_visiting (keys : List (FunctionKey × VarSet)) :
    Leaves .visiting (repairKeys sol keys) s := by
  induction keys generalizing s with
  | nil => exact .pure
  | cons entry rest ih =>
    have hrest : ∀ first t, Leaves .visiting (do
        let others ← repairKeys sol rest
        return first || others) t := fun _ _ => ih.bind fun _ _ _ => .pure
    apply Leaves.bind_get
    dsimp only
    split
    · exact (repairAll_visiting _ _).bind fun _ _ _ => hrest _ _
    · exact Leaves.pure.bind fun _ _ _ => hrest _ _

theorem repair_visiting : Leaves .visiting (repair sol) s :=
  Leaves.bind_get (repairKeys_visiting _)

end Session

end CheckedPointers
