import CheckedPointers.Proofs.Session.Building
import CheckedPointers.Session.Flow

/-!
Everything that an operation can do to a session, one step at a time. While something is looked at,
variables are made, and what was made is remembered; while a unit is visited, constraints are
recorded and sizes collected as well; the rest is done to declarations and units. Nothing else
happens, whether an operation ends, is given up or faults.
-/
namespace CheckedPointers

open Op

namespace Session

variable {s t : Session} {v w : VarId}

def Declared (s : Session) (v : VarId) : Prop := ∃ key, v ∈ s.pairing.declaredUnder key

theorem Registered.isFunction (h : s.Registered v) (hs : s.WellFormed) : s.arena.isFunction v := by
  obtain ⟨e, he, hv⟩ := h
  exact hs.definitions e he v hv

theorem Declared.isFunction (h : s.Declared v) (hs : s.WellFormed) : s.arena.isFunction v := by
  obtain ⟨key, hv⟩ := h
  unfold Pairing.declaredUnder Pairing.declared? at hv
  cases hset : s.pairing.declarations.find? key with
  | none => simp [hset] at hv
  | some set =>
    rw [hset] at hv
    exact hs.declarations _ (OrderedMap.mem_of_find? hset) v hv

/-- A function that is noted neither as a definition nor as a declaration and shares no atom with
those that are. -/
structure Unclaimed (s : Session) (v : VarId) : Prop where
  function : s.arena.isFunction v
  apart : ∀ w, s.Registered w ∨ s.Declared w → w ≠ v ∧ ¬ s.arena.Shares v w

def withSignature (s : Session) (key : FunctionKey) (v : VarId) : Session :=
  { s with
    pairing := s.pairing.declare key v
    implicits := s.implicits.insert key (.singleton v) }

def withPointee (s : Session) (v : VarId) (q : PointerVariable) : Session :=
  { s with
    arena := s.arena.push (.pointer q)
    pointees := s.pointees.insert v (some s.arena.size) }

def withLiteral (s : Session) (o : OpenUnit) (e : ExprId) (value : String) : Session :=
  { s with
    solver := (s.solver.fresh.2.add (.atLeast s.solver.cells.size .ntArr)).2
    arena := s.arena.push
      (.pointer ⟨[s.solver.cells.size], "const char", value, none, false, none⟩)
    opened := some { o with literals := o.literals.insert e s.arena.size } }

def withUnknownCallee (s : Session) (o : OpenUnit) (call : ExprId) : Session :=
  { s with
    arena := s.arena.push (.function .unknown)
    opened := some { o with unknownCallees := o.unknownCallees.insert call s.arena.size } }

inductive LookStep (s : Session) : Session → Prop where
  | builds {t : Session} (h : s.Builds t) : LookStep s t
  | signs {key : FunctionKey} {v : VarId} (hfree : s.implicits.find? key = none)
      (hv : s.Unclaimed v) : LookStep s (s.withSignature key v)
  | derives {v : VarId} {p q : PointerVariable} (hfree : s.pointees.find? v = none)
      (hp : s.arena.pointer? v = some p) (hq : p.dereferenced? = some q) :
      LookStep s (s.withPointee v q)
  | bottoms {v : VarId} (hfree : s.pointees.find? v = none) (hv : v < s.arena.size)
      (hlast : (s.arena.pointer? v).bind PointerVariable.dereferenced? = none) :
      LookStep s { s with pointees := s.pointees.insert v none }
  | quotes {o : OpenUnit} {e : ExprId} {value : String} (ho : s.opened = some o)
      (hfree : o.literals.find? e = none) : LookStep s (s.withLiteral o e value)
  | guesses {o : OpenUnit} {call : ExprId} (ho : s.opened = some o)
      (hfree : o.unknownCallees.find? call = none) : LookStep s (s.withUnknownCallee o call)

/-- What one step does while a unit is visited, or at linking and repair. -/
inductive VisitStep (s : Session) : Session → Prop where
  | looks {t : Session} (h : s.LookStep t) : VisitStep s t
  | records {t : Session} (h : s.Records t) : VisitStep s t
  | collects {o : OpenUnit} (ho : s.opened = some o) (found : List (DeclId × List ExprId)) :
      VisitStep s { s with opened := some { o with candidates := found } }

inductive Step (s : Session) : Session → Prop where
  | visits {t : Session} (h : s.VisitStep t) : Step s t
  | enters (id : Nat) (file : String) :
      Step s { s with opened := some ⟨id, file, [], .empty, .empty⟩ }
  | exits : Step s { s with opened := none }
  | stores (anchor : Anchor) {set : VarSet} (h : ∀ v ∈ set, v < s.arena.size) :
      Step s { s with index := s.index.insert anchor ((s.storedAt anchor).union set) }
  | defines (key : FunctionKey) {v : VarId} (hv : s.Unclaimed v) :
      Step s { s with pairing := s.pairing.define key v }
  | declares (key : FunctionKey) {v : VarId} (hv : s.Unclaimed v) :
      Step s { s with pairing := s.pairing.declare key v }
  | pairs (key key' : FunctionKey) : Step s { s with pairing := s.pairing.pair key key' }
  | notesBody (externs : OrderedMap String Bool) : Step s { s with externs := externs }
  | notesVariants (name : String) {set : VarSet} (h : ∀ v ∈ set, s.arena.isFunction v) :
      Step s { s with globals := s.globals.insert name set }

structure SameStock (s t : Session) : Prop where
  arena : t.arena = s.arena
  size : t.solver.cells.size = s.solver.cells.size
  pointees : t.pointees = s.pointees

/-- Only looking makes variables and atoms or finds out what lies below one. -/
theorem Step.looks_or_same (h : s.Step t) : s.LookStep t ∨ s.SameStock t := by
  cases h with
  | visits h =>
    cases h with
    | looks h => exact .inl h
    | records h => exact .inr ⟨h.arena, h.size, by rw [h.only]⟩
    | collects => exact .inr ⟨rfl, rfl, rfl⟩
  | _ => exact .inr ⟨rfl, rfl, rfl⟩

/-! ## Steps do no harm -/

/-- A variable that names older ones of the right kind is added. -/
theorem creates_push {x : Variable} (hx : s.arena.Admits s.solver.cells.size x) :
    s.Creates { s with arena := s.arena.push x } := (allocate_meets hx).1

/-- A constraint on atoms that are there is handed to the store. -/
theorem records_add {c : Constraint} (hc : c.Known s.solver.cells.size) :
    s.Records { s with solver := (s.solver.add c).2 } :=
  ⟨ConstraintSystem.grows_add hc, ConstraintSystem.add_cells_size s.solver c, rfl⟩

theorem isPointer_push (s : Session) (q : PointerVariable) :
    Arena.isPointer (s.arena.push (.pointer q)) s.arena.size := by
  simp [Arena.isPointer, Arena.pointer?_push, Variable.pointer?]

theorem isFunction_push (s : Session) (f : FunctionVariable) :
    Arena.isFunction (s.arena.push (.function f)) s.arena.size := by
  simp [Arena.isFunction, Arena.function?_push, Variable.function?]

theorem visits_define (key : FunctionKey) (hv : s.arena.isFunction v) :
    s.Visits { s with pairing := s.pairing.define key v } := (define_meets hv).1

theorem visits_declare (key : FunctionKey) (hv : s.arena.isFunction v) :
    s.Visits { s with pairing := s.pairing.declare key v } := (declare_meets hv).1

theorem visits_pointee {v : VarId} {made : Option VarId} (hfree : s.pointees.find? v = none)
    (hmade : ∀ d, made = some d → s.arena.isPointer d) :
    s.Visits { s with pointees := s.pointees.insert v made } := (addPointee_meets hmade hfree).1

/-- The open unit remembers one more literal. -/
theorem visits_literal {o : OpenUnit} {e : ExprId} (ho : s.opened = some o)
    (hfree : o.literals.find? e = none) (hv : s.arena.isPointer v) :
    s.Visits { s with opened := some { o with literals := o.literals.insert e v } } := by
  have hr : o.Remembers { o with literals := o.literals.insert e v } :=
    ⟨rfl, rfl, fun _ _ => OrderedMap.find?_insert_of_free hfree, fun _ _ => id⟩
  have hkept : ∀ x ∈ (o.literals.insert e v).entries,
      x ∈ o.literals.entries ∨ s.arena.isPointer x.2 := by
    intro x hx
    rcases OrderedMap.mem_insert hx with rfl | hx
    · exact .inr hv
    · exact .inl hx
  exact (setOpen_meets ho hr hkept fun _ => .inl).1

/-- The open unit remembers one more call whose target is unknown. -/
theorem visits_unknownCallee {o : OpenUnit} {call : ExprId} (ho : s.opened = some o)
    (hfree : o.unknownCallees.find? call = none) (hv : s.arena.isFunction v) :
    s.Visits
      { s with opened := some { o with unknownCallees := o.unknownCallees.insert call v } } := by
  have hr : o.Remembers { o with unknownCallees := o.unknownCallees.insert call v } :=
    ⟨rfl, rfl, fun _ _ => id, fun _ _ => OrderedMap.find?_insert_of_free hfree⟩
  have hkept : ∀ x ∈ (o.unknownCallees.insert call v).entries,
      x ∈ o.unknownCallees.entries ∨ s.arena.isFunction x.2 := by
    intro x hx
    rcases OrderedMap.mem_insert hx with rfl | hx
    · exact .inr hv
    · exact .inl hx
  exact (setOpen_meets ho hr (fun _ => .inl) hkept).1

theorem visits_withSignature {key : FunctionKey} (hfree : s.implicits.find? key = none)
    (hv : s.arena.isFunction v) : s.Visits (s.withSignature key v) :=
  (visits_declare key hv).trans (addImplicit_meets (s := { s with
    pairing := s.pairing.declare key v }) hv hfree).1

theorem visits_withPointee {p q : PointerVariable} (hs : s.WellFormed)
    (hfree : s.pointees.find? v = none) (hp : s.arena.pointer? v = some p)
    (hq : p.dereferenced? = some q) : s.Visits (s.withPointee v q) := by
  have hnew := creates_push (hs.arena.admits_dereferenced hp hq)
  apply hnew.visits.trans
  apply visits_pointee (s := { s with arena := s.arena.push (.pointer q) }) hfree
  rintro d ⟨⟩
  exact isPointer_push s q

theorem visits_withLiteral {o : OpenUnit} {e : ExprId} (value : String) (ho : s.opened = some o)
    (hfree : o.literals.find? e = none) : s.Visits (s.withLiteral o e value) := by
  have hfresh : s.Creates { s with solver := s.solver.fresh.2 } := (freshAtom_meets s).1
  have hlt : s.solver.cells.size < s.solver.fresh.2.cells.size := by simp [ConstraintSystem.fresh]
  have hbounded := hfresh.trans (records_add (s := { s with solver := s.solver.fresh.2 })
    (c := .atLeast s.solver.cells.size .ntArr) hlt).creates
  -- the new pointer has the new atom and leads nowhere
  have hnew := hbounded.trans (creates_push
    (x := .pointer ⟨[s.solver.cells.size], "const char", value, none, false, none⟩)
    ⟨by simp, by simpa using hlt⟩)
  exact hnew.visits.trans (visits_literal ho hfree (isPointer_push s _))

theorem visits_withUnknownCallee {o : OpenUnit} {call : ExprId} (ho : s.opened = some o)
    (hfree : o.unknownCallees.find? call = none) : s.Visits (s.withUnknownCallee o call) := by
  have hnew := creates_push (s := s) (x := .function .unknown)
    fun slot hslot => .inl (List.mem_singleton.1 hslot)
  exact hnew.visits.trans (visits_unknownCallee ho hfree (isFunction_push s _))

/-- A step of looking is a step of a visit. -/
theorem LookStep.visits (h : s.LookStep t) (hs : s.WellFormed) : s.Visits t := by
  cases h with
  | builds h => exact h.toCreates.visits
  | signs hfree hv => exact visits_withSignature hfree hv.function
  | derives hfree hp hq => exact visits_withPointee hs hfree hp hq
  | bottoms hfree _ _ => exact visits_pointee hfree (by simp)
  | quotes ho hfree => exact visits_withLiteral _ ho hfree
  | guesses ho hfree => exact visits_withUnknownCallee ho hfree

theorem VisitStep.visits (h : s.VisitStep t) (hs : s.WellFormed) : s.Visits t := by
  cases h with
  | looks h => exact h.visits hs
  | records h => exact h.creates.visits
  | @collects o ho found =>
    have hr : o.Remembers { o with candidates := found } := ⟨rfl, rfl, fun _ _ => id, fun _ _ => id⟩
    exact (setOpen_meets ho hr (fun _ => .inl) fun _ => .inl).1

/-- Every step leaves a well-formed session well formed and takes no variable back. -/
theorem Step.extends (h : s.Step t) (hs : s.WellFormed) : s.Extends t := by
  cases h with
  | visits h => exact (h.visits hs).toExtends
  | enters id file =>
    refine .of_tables rfl rfl rfl rfl fun hs => { hs with literals := ?_, unknownCallees := ?_ }
    · rintro o ⟨⟩ e he
      cases he
    · rintro o ⟨⟩ e he
      cases he
  | exits =>
    refine .of_tables rfl rfl rfl rfl fun hs => { hs with literals := ?_, unknownCallees := ?_ }
    · exact fun o ho => nomatch ho
    · exact fun o ho => nomatch ho
  | @stores anchor set h =>
    refine .of_tables rfl rfl rfl rfl fun hs => { hs with index := fun e he v hv => ?_ }
    rcases OrderedMap.mem_insert he with rfl | he
    · exact ((VarSet.mem_union _ _ v).1 hv).elim (h v) hs.stored_lt
    · exact hs.index e he v hv
  | defines key hv => exact (visits_define key hv.function).toExtends
  | declares key hv => exact (visits_declare key hv.function).toExtends
  | pairs key key' => exact (pair_meets key key' s).1.toExtends
  | notesBody externs => exact .of_tables rfl rfl rfl rfl fun hs => { hs with index := hs.index }
  | @notesVariants name set h =>
    refine .of_tables rfl rfl rfl rfl fun hs => { hs with globals := fun e he v hv => ?_ }
    rcases OrderedMap.mem_insert he with rfl | he
    · exact h v hv
    · exact hs.globals e he v hv

end Session

namespace Frame

def looking : Frame := .steps Session.LookStep

def visiting : Frame := .steps Session.VisitStep

def stepping : Frame := .steps Session.Step

end Frame

namespace Op

variable {α : Type} {x : Op α} {s t : Session}

theorem Leaves.to_visiting (h : Leaves .looking x s) : Leaves .visiting x s :=
  h.widen fun _ => Frame.steps_mono fun _ _ => .looks

end Op

namespace Session

variable {s t : Session}

theorem LookStep.looking (h : s.WellFormed → s.LookStep t) : Frame.looking.rel s t :=
  Frame.steps_single fun hs => ⟨((h hs).visits hs).wellFormed hs, h hs⟩

theorem VisitStep.visiting (h : s.WellFormed → s.VisitStep t) : Frame.visiting.rel s t :=
  Frame.steps_single fun hs => ⟨((h hs).visits hs).wellFormed hs, h hs⟩

/-- What every step of a look keeps holds after it. -/
theorem looking_keeps {P : Session → Prop}
    (hstep : ∀ s t, s.WellFormed → s.LookStep t → P s → P t) (h : Frame.looking.rel s t)
    (hs : s.WellFormed) (hP : P s) : P t :=
  Frame.steps_keep (fun _ _ hs hst => (hst.visits hs).wellFormed hs) hstep h hs hP

/-- What every step keeps holds after any operation. -/
theorem stepping_keeps {P : Session → Prop}
    (hstep : ∀ s t, s.WellFormed → s.Step t → P s → P t) (h : Frame.stepping.rel s t)
    (hs : s.WellFormed) (hP : P s) : P t :=
  Frame.steps_keep (fun _ _ hs hst => (hst.extends hs).wellFormed hs) hstep h hs hP

/-- Any number of steps of a visit is a visit. -/
theorem visits_of_visiting (h : Frame.visiting.rel s t) (hs : s.WellFormed) : s.Visits t :=
  Frame.steps_keep (fun _ _ hs hst => (hst.visits hs).wellFormed hs)
    (fun _ _ ht htw hst => hst.trans (htw.visits ht)) h hs (.refl s)

end Session

end CheckedPointers
