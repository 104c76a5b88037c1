import CheckedPointers.Proofs.Session.Matching
import CheckedPointers.Proofs.Variable.Spelling
import CheckedPointers.Session.Denotation.Expr

/-!
Sessions that differ in nothing but the spelling of types and the numbering of expressions. What
operations on variables do in one of them they do in the other.
-/
namespace CheckedPointers

open Op

/-- Of expressions that `K` relates the units remember the same. -/
structure OpenUnit.Echoes (K : ExprId → ExprId → Prop) (o o' : OpenUnit) : Prop where
  id : o'.id = o.id
  file : o'.file = o.file
  literals : ∀ e e', K e e' → o'.literals.find? e' = o.literals.find? e
  unknownCallees : ∀ e e', K e e' → o'.unknownCallees.find? e' = o.unknownCallees.find? e

/-- The sessions are the same but for the spelling of types, for what was noted of allocations, and
for the numbers of expressions, which `K` relates. `visit` is the unit that is open, if any. -/
structure Session.Echoes (K : ExprId → ExprId → Prop) (visit : Option (Nat × String))
    (s t : Session) : Prop where
  options : t.options = s.options
  solver : t.solver = s.solver
  pairing : t.pairing = s.pairing
  arena : t.arena.unspelled = s.arena.unspelled
  index : t.index = s.index
  globals : t.globals = s.globals
  externs : t.externs = s.externs
  implicits : t.implicits = s.implicits
  pointees : t.pointees = s.pointees
  opened : Option.Rel (OpenUnit.Echoes K) s.opened t.opened
  visiting : s.opened.map (fun o => (o.id, o.file)) = visit

/-- Values that `g` cannot tell apart are there on both sides or on neither. -/
theorem rel_of_map_eq {α β : Type} {g : α → β} {x y : Option α} (h : y.map g = x.map g) :
    Option.Rel (fun a b => g b = g a) x y := by
  cases x <;> cases y <;> simp only [Option.map_some, Option.map_none, Option.some.injEq,
    reduceCtorEq] at h
  · exact .none
  · exact .some h

namespace Session

variable {K K' : ExprId → ExprId → Prop} {visit : Option (Nat × String)} {s t : Session} {v : VarId}

namespace Echoes

/-- Whatever does not depend on the spelling of types is the same in both arenas. -/
theorem of_arena (h : s.Echoes K visit t) {α : Type} {g : Arena → α}
    (hg : ∀ arena, g arena.unspelled = g arena) : g t.arena = g s.arena := by
  rw [← hg t.arena, h.arena, hg]

theorem size (h : s.Echoes K visit t) : t.arena.size = s.arena.size :=
  h.of_arena Arena.size_unspelled

theorem pointer? (h : s.Echoes K visit t) (v : VarId) :
    (t.arena.pointer? v).map PointerVariable.unspelled =
      (s.arena.pointer? v).map PointerVariable.unspelled := by
  rw [← Arena.pointer?_unspelled, h.arena, Arena.pointer?_unspelled]

theorem function? (h : s.Echoes K visit t) (v : VarId) :
    (t.arena.function? v).map FunctionVariable.unspelled =
      (s.arena.function? v).map FunctionVariable.unspelled := by
  rw [← Arena.function?_unspelled, h.arena, Arena.function?_unspelled]

/-- What is told of a function without the spelling of its type is told alike. -/
theorem function?_map (h : s.Echoes K visit t) {α : Type} {g : FunctionVariable → α}
    (hg : ∀ f, g f.unspelled = g f) (v : VarId) :
    (t.arena.function? v).map g = (s.arena.function? v).map g := by
  have hmap := congrArg (Option.map g) (h.function? v)
  simpa only [Option.map_map, Function.comp_def, hg] using hmap

theorem pointer?_map (h : s.Echoes K visit t) {α : Type} {g : PointerVariable → α}
    (hg : ∀ p, g p.unspelled = g p) (v : VarId) :
    (t.arena.pointer? v).map g = (s.arena.pointer? v).map g := by
  have hmap := congrArg (Option.map g) (h.pointer? v)
  simpa only [Option.map_map, Function.comp_def, hg] using hmap

theorem dereferenced? (h : s.Echoes K visit t) (v : VarId) :
    ((t.arena.pointer? v).bind PointerVariable.dereferenced?).map PointerVariable.unspelled =
      ((s.arena.pointer? v).bind PointerVariable.dereferenced?).map PointerVariable.unspelled := by
  have hbind (p : Option PointerVariable) :
      (p.bind PointerVariable.dereferenced?).map PointerVariable.unspelled =
        (p.map PointerVariable.unspelled).bind PointerVariable.dereferenced? := by
    cases p <;> simp [PointerVariable.dereferenced?_unspelled]
  rw [hbind, hbind, h.pointer?]

theorem reachableFunction?_map (h : s.Echoes K visit t) {α : Type} {g : FunctionVariable → α}
    (hg : ∀ f, g f.unspelled = g f) (v : VarId) :
    (t.arena.reachableFunction? v).map g = (s.arena.reachableFunction? v).map g := by
  have hreach : (t.arena.reachableFunction? v).map FunctionVariable.unspelled =
      (s.arena.reachableFunction? v).map FunctionVariable.unspelled := by
    rw [← Arena.reachableFunction?_unspelled, h.arena, Arena.reachableFunction?_unspelled]
  have hmap := congrArg (Option.map g) hreach
  simpa only [Option.map_map, Function.comp_def, hg] using hmap

/-- What is told of the functions that some variables denote is told alike. -/
theorem reachableFunctions_map (h : s.Echoes K visit t) {α : Type} {g : FunctionVariable → α}
    (hg : ∀ f, g f.unspelled = g f) (vs : List VarId) :
    (vs.filterMap t.arena.reachableFunction?).map g =
      (vs.filterMap s.arena.reachableFunction?).map g := by
  simp only [List.map_filterMap, h.reachableFunction?_map hg]

theorem functions_map (h : s.Echoes K visit t) {α : Type} {g : FunctionVariable → α}
    (hg : ∀ f, g f.unspelled = g f) (vs : List VarId) :
    (vs.filterMap t.arena.function?).map g = (vs.filterMap s.arena.function?).map g := by
  simp only [List.map_filterMap, h.function?_map hg]

theorem isFunction (h : s.Echoes K visit t) : t.arena.isFunction = s.arena.isFunction := by
  funext v
  exact h.of_arena (g := fun arena => arena.isFunction v) (Arena.isFunction_unspelled · v)

theorem isPointer (h : s.Echoes K visit t) : t.arena.isPointer = s.arena.isPointer := by
  funext v
  exact h.of_arena (g := fun arena => arena.isPointer v) (Arena.isPointer_unspelled · v)

theorem atoms? (h : s.Echoes K visit t) (v : VarId) : t.arena.atoms? v = s.arena.atoms? v :=
  h.of_arena (g := fun arena => arena.atoms? v) (Arena.atoms?_unspelled · v)

theorem equations? (h : s.Echoes K visit t) (v w : VarId) :
    t.arena.equations? v w = s.arena.equations? v w :=
  h.of_arena (g := fun arena => arena.equations? v w) (Arena.equations?_unspelled · v w)

theorem storedAt (h : s.Echoes K visit t) (anchor : Anchor) :
    t.storedAt anchor = s.storedAt anchor := by
  rw [Session.storedAt, Session.storedAt, h.index]

/-- Both sessions have a unit open or neither has. -/
theorem closed (h : s.Echoes K none t) : s.opened = none ∧ t.opened = none := by
  have hs : s.opened = none := by simpa using h.visiting
  have hopened := h.opened
  rw [hs] at hopened
  generalize t.opened = o at hopened
  cases hopened
  exact ⟨hs, rfl⟩

/-- A variable of the same kind is added on both sides. -/
theorem push (h : s.Echoes K visit t) {x x' : Variable} (hx : x'.unspelled = x.unspelled) :
    Echoes K visit { s with arena := s.arena.push x } { t with arena := t.arena.push x' } :=
  { h with arena := by rw [Arena.unspelled_push, Arena.unspelled_push, h.arena, hx] }

end Echoes

/-! ## The open unit -/

section

variable {u u' : TranslationUnit}

/-- The open units are the same unit on both sides. -/
theorem current_echoes (hid : u'.id = u.id) (hfile : u'.file = u.file) :
    Matches (Echoes K visit) (fun o o' => o.Echoes K o' ∧ some (o.id, o.file) = visit) (current u)
      (current u') := by
  apply Matches.bind_get
  intro s t hst
  have hopened := hst.opened
  have hvisiting := hst.visiting
  generalize s.opened = o, t.opened = o' at hopened hvisiting
  cases hopened with
  | none => exact .fault
  | some h =>
    dsimp only
    rw [h.id, h.file, hid, hfile]
    split
    · exact .pure ⟨h, hvisiting⟩
    · exact .fault

theorem requireOpen_echoes (hid : u'.id = u.id) (hfile : u'.file = u.file) :
    Matches (Echoes K visit) Eq (requireOpen u) (requireOpen u') :=
  (current_echoes hid hfile).bind fun _ _ _ => .pure rfl

theorem setOpen_echoes {o o' : OpenUnit} (h : o.Echoes K o') (hvisit : some (o.id, o.file) = visit) :
    Matches (Echoes K visit) Eq (setOpen o) (setOpen o') :=
  Matches.modify fun _ _ hst => { hst with opened := .some h, visiting := hvisit }

/-- Nothing is remembered of a unit that was just entered. -/
theorem enter_echoes (L : ExprId → ExprId → Prop) (hid : u'.id = u.id) (hfile : u'.file = u.file) :
    Leads (Echoes K none) (Echoes L (some (u.id, u.file))) Eq (enter u) (enter u') := by
  intro s t hst
  have hrun (u : TranslationUnit) {s : Session} (hs : s.opened = none) :
      enter u s = (.ok (), { s with opened := some ⟨u.id, u.file, [], .empty, .empty⟩ }) := by
    rw [enter, bind_run, get_run]
    dsimp only
    rw [hs]
    rfl
  rw [hrun u hst.closed.1, hrun u' hst.closed.2]
  exact .ends { hst with
    opened := .some ⟨hid, hfile, fun _ _ _ => rfl, fun _ _ _ => rfl⟩
    visiting := rfl } rfl

/-- The unit is forgotten on both sides, so nothing of its numbers remains. -/
theorem exit_echoes : Leads (Echoes K visit) (Echoes K' none) Eq exit exit := by
  intro s t hst
  rw [exit, bind_run, bind_run, get_run, get_run]
  have hopened := hst.opened
  dsimp only
  generalize s.opened = o, t.opened = o' at hopened
  cases hopened with
  | none => exact .breaks
  | some h => exact .ends { hst with opened := .none, visiting := rfl } rfl

end

/-! ## Operations on variables -/

theorem freshAtom_echoes : Matches (Echoes K visit) Eq freshAtom freshAtom :=
  Matches.modifyGet fun s t hst => by
    simp only [hst.solver]
    exact ⟨{ hst with solver := rfl }, trivial⟩

theorem freshAtoms_echoes (n : Nat) :
    Matches (Echoes K visit) Eq (freshAtoms n) (freshAtoms n) := by
  induction n with
  | zero => exact .pure rfl
  | succ n ih => exact freshAtom_echoes.bind_eq fun a => ih.bind_eq fun _ => .pure rfl

theorem allocate_echoes {x x' : Variable} (hx : x'.unspelled = x.unspelled) :
    Matches (Echoes K visit) Eq (allocate x) (allocate x') :=
  Matches.modifyGet fun _ _ hst => ⟨hst.push hx, hst.size.symm⟩

theorem addConstraint_echoes (c : Constraint) :
    Matches (Echoes K visit) Eq (addConstraint c) (addConstraint c) := by
  apply Matches.bind_get
  intro s t hst
  rw [hst.solver]
  rcases s.solver.add c with ⟨_ | isNew, solver⟩
  · exact (Matches.modify fun _ _ h => { h with solver := rfl }).bind_eq fun _ => .fault
  · exact (Matches.modify fun _ _ h => { h with solver := rfl }).bind_eq fun _ => .pure rfl

theorem boundAtoms_echoes (c : Category) (atoms : List Atom) :
    Matches (Echoes K visit) Eq (boundAtoms c atoms) (boundAtoms c atoms) := by
  induction atoms with
  | nil => exact .pure rfl
  | cons a rest ih => exact (addConstraint_echoes _).bind_eq fun _ => ih.bind_eq fun _ => .pure rfl

theorem boundBelow_echoes (v : VarId) (c : Category) :
    Matches (Echoes K visit) Eq (boundBelow v c) (boundBelow v c) :=
  Matches.bind_get fun _ _ hst => Matches.bind_known (hst.atoms? v).symm fun atoms =>
    boundAtoms_echoes c atoms

theorem boundSet_echoes (set : VarSet) (c : Category) :
    Matches (Echoes K visit) Eq (boundSet set c) (boundSet set c) := by
  rw [boundSet]
  induction set.members with
  | nil => exact .pure rfl
  | cons v rest ih => exact (boundBelow_echoes v c).bind_eq fun _ => ih.bind_eq fun _ => .pure rfl

theorem equate_echoes (a b : VarId) : Matches (Echoes K visit) Eq (equate a b) (equate a b) :=
  Matches.bind_get fun _ _ hst => Matches.bind_known (hst.equations? a b).symm fun _ =>
    Matches.forM_eq fun _ _ => (addConstraint_echoes _).discard

theorem equateSets_echoes (x y : VarSet) :
    Matches (Echoes K visit) Eq (equateSets x y) (equateSets x y) :=
  Matches.forM_eq fun a _ => Matches.forM_eq fun b _ => equate_echoes a b

theorem store_echoes (anchor : Anchor) (vs : VarSet) :
    Matches (Echoes K visit) Eq (store anchor vs) (store anchor vs) :=
  Matches.modify fun s t hst => { hst with
    index := by
      show t.index.insert anchor _ = s.index.insert anchor _
      rw [hst.index, hst.storedAt] }

theorem updatePairing_echoes (g : Pairing → Pairing) :
    Matches (Echoes K visit) Eq (updatePairing g) (updatePairing g) :=
  Matches.modify fun s t hst => { hst with
    pairing := by
      show g t.pairing = g s.pairing
      rw [hst.pairing] }

/-! ## Dereferencing -/

/-- What lies below a variable is found on both sides or made on both sides. -/
theorem dereferenceOne_echoes (v : VarId) :
    Matches (Echoes K visit) Eq (dereferenceOne v) (dereferenceOne v) := by
  have hkeep (made : Option VarId) : Matches (Echoes K visit) Eq
      (do modify fun s => { s with pointees := s.pointees.insert v made }; return made)
      (do modify fun s => { s with pointees := s.pointees.insert v made }; return made) :=
    (Matches.modify fun s t hst => { hst with
      pointees := by
        show t.pointees.insert v made = s.pointees.insert v made
        rw [hst.pointees] }).bind_eq fun _ => .pure rfl
  apply Matches.bind_get
  intro s t hst
  rw [hst.pointees]
  cases s.pointees.find? v with
  | some memo => exact .pure rfl
  | none =>
    apply Matches.bind_get
    intro s t hst
    have hbelow := rel_of_map_eq (hst.dereferenced? v)
    generalize (s.arena.pointer? v).bind PointerVariable.dereferenced? = p,
      (t.arena.pointer? v).bind PointerVariable.dereferenced? = p' at hbelow
    cases hbelow with
    | none => exact (Matches.pure rfl).bind_eq hkeep
    | some hp =>
      refine Matches.bind_eq (Matches.map (allocate_echoes ?_) ?_) hkeep
      · exact congrArg Variable.pointer hp
      · exact fun _ _ h => congrArg some h

theorem dereference_echoes (set : VarSet) :
    Matches (Echoes K visit) Eq (dereference set) (dereference set) := by
  rw [dereference]
  induction set.members with
  | nil => exact .pure rfl
  | cons v rest ih => exact (dereferenceOne_echoes v).bind_eq fun _ => ih.bind_eq fun _ => .pure rfl

end Session

end CheckedPointers
