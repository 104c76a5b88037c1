import CheckedPointers.Proofs.Session.Creation
import CheckedPointers.Proofs.Session.Matching
import CheckedPointers.Proofs.Session.Recording

/-!
Making variables looks at nothing but atoms, constraints and variables. So it goes the same way in a
session that has all its other tables empty.
-/
namespace CheckedPointers

open Op

namespace Session

variable {s t s' : Session} {α : Type} {x : Op α}

def bare (s : Session) : Session := { new .default with solver := s.solver, arena := s.arena }

theorem WellFormed.bare (h : s.WellFormed) : s.bare.WellFormed := by
  have hsolver : (new .default).solver.Grows s.solver :=
    ⟨Nat.zero_le _, List.nil_prefix, fun _ => h.solver⟩
  exact (wellFormed_new .default).extend hsolver (fun v x hx => by simp [new] at hx) h.arena

theorem Extends.bare (h : s.Extends t) (ht : t.WellFormed) : s.bare.Extends t.bare where
  options := rfl
  solver := h.solver
  arena := h.arena
  registered _ := fun ⟨_, he, _⟩ => nomatch he
  wellFormed _ := ht.bare

theorem Creates.eq_bare (h : s.bare.Creates t) : t = t.bare := by
  rw [h.only]
  rfl

structure SameStore (s t : Session) : Prop where
  solver : t.solver = s.solver
  arena : t.arena = s.arena

theorem sameStore_bare (s : Session) : SameStore s s.bare := ⟨rfl, rfl⟩

theorem SameStore.bare (h : SameStore s t) : t.bare = s.bare := by
  rw [Session.bare, Session.bare, h.solver, h.arena]

/-- What is made in a session is made without its tables. -/
theorem ends_bare {a : α} {Q : α → Session → Prop} (h : Matches SameStore Eq x x)
    (hmeets : ∀ s, Meets .creates x s Q) (hends : x.Ends s a t) : x.Ends s.bare a t.bare := by
  obtain ⟨_, w, hw, hstore, rfl⟩ := h.leads.of_ends (sameStore_bare s) hends
  have hcreates : s.bare.Creates w := ((hmeets s.bare).of_ends hw).1
  rw [← hstore.bare, ← hcreates.eq_bare]
  exact hw

/-! ## Making variables -/

theorem freshAtom_sameStore : Matches SameStore Eq freshAtom freshAtom :=
  Matches.modifyGet fun s t hst => by
    rw [hst.solver]
    exact ⟨{ hst with solver := rfl }, rfl⟩

theorem freshAtoms_sameStore (n : Nat) : Matches SameStore Eq (freshAtoms n) (freshAtoms n) := by
  induction n with
  | zero => exact .pure rfl
  | succ n ih => exact freshAtom_sameStore.bind_eq fun a => ih.bind_eq fun _ => .pure rfl

theorem allocate_sameStore (x : Variable) : Matches SameStore Eq (allocate x) (allocate x) :=
  Matches.modifyGet fun s t hst => by
    rw [hst.arena]
    exact ⟨{ hst with arena := rfl }, rfl⟩

theorem newPointerOver_sameStore {ty : CType} {name : String} {itype : Option String}
    {pointee : Op (Option VarId)} (h : Matches SameStore Eq pointee pointee) :
    Matches SameStore Eq (newPointerOver ty name itype pointee)
      (newPointerOver ty name itype pointee) :=
  (freshAtoms_sameStore _).bind_eq fun _ => h.bind_eq fun _ => allocate_sameStore _

mutual

theorem newPointee_sameStore (name : String) : (ty : CType) →
    Matches SameStore Eq (newPointee name ty) (newPointee name ty)
  | .pointer inner => by
    rw [newPointee]
    exact newPointee_sameStore name inner
  | .array elem _ => by
    rw [newPointee]
    exact newPointee_sameStore name elem
  | .typedef _ underlying => by
    rw [newPointee]
    exact newPointee_sameStore name underlying
  | .function ret params variadic hasPrototype => by
    rw [newPointee]
    refine (newPointerOver_sameStore (newPointee_sameStore name ret)).bind_eq fun r => ?_
    refine (newSlots_sameStore params).bind_eq fun slots => ?_
    exact (allocate_sameStore _).bind_eq fun v => .pure rfl
  | .builtin _ | .record _ => by
    rw [newPointee]
    exact .pure rfl

theorem newSlots_sameStore : (tys : List CType) →
    Matches SameStore Eq (newSlots tys) (newSlots tys)
  | [] => by
    rw [newSlots]
    exact .pure rfl
  | ty :: rest => by
    rw [newSlots]
    refine (newPointerOver_sameStore (newPointee_sameStore "" ty)).bind_eq fun p => ?_
    exact (newSlots_sameStore rest).bind_eq fun slots => .pure rfl

end

theorem newPointer_sameStore (ty : CType) (name : String) (itype : Option String) :
    Matches SameStore Eq (newPointer ty name itype) (newPointer ty name itype) :=
  newPointerOver_sameStore (newPointee_sameStore name ty)

/-! ## Bounding variables -/

theorem addConstraint_sameStore (c : Constraint) :
    Matches SameStore Eq (addConstraint c) (addConstraint c) := by
  apply Matches.bind_get
  intro s t hst
  rw [hst.solver]
  rcases s.solver.add c with ⟨_ | isNew, solver⟩
  · exact (Matches.modify fun _ _ h => { h with solver := rfl }).bind_eq fun _ => .fault
  · exact (Matches.modify fun _ _ h => { h with solver := rfl }).bind_eq fun _ => .pure rfl

theorem boundAtoms_sameStore (c : Category) (atoms : List Atom) :
    Matches SameStore Eq (boundAtoms c atoms) (boundAtoms c atoms) := by
  induction atoms with
  | nil => exact .pure rfl
  | cons a rest ih => exact (addConstraint_sameStore _).bind_eq fun _ => ih.bind_eq fun _ => .pure rfl

theorem boundBelow_sameStore (v : VarId) (c : Category) :
    Matches SameStore Eq (boundBelow v c) (boundBelow v c) :=
  Matches.bind_get fun _ _ hst => Matches.bind_known (by rw [hst.arena]) fun atoms =>
    boundAtoms_sameStore c atoms

theorem boundSet_sameStore (set : VarSet) (c : Category) :
    Matches SameStore Eq (boundSet set c) (boundSet set c) := by
  rw [boundSet]
  induction set.members with
  | nil => exact .pure rfl
  | cons v rest ih => exact (boundBelow_sameStore v c).bind_eq fun _ => ih.bind_eq fun _ => .pure rfl

/-! ## Functions -/

variable (u : TranslationUnit)

theorem newParameter_sameStore (d : DeclId) :
    Matches SameStore Eq (newParameter u d) (newParameter u d) := by
  refine Matches.bind_lift (Both.refl (u.decl d)) fun p _ hp => ?_
  subst hp
  refine (newPointer_sameStore _ _ _).bind_eq fun v => ?_
  cases p.isRewritable with
  | true => exact .pure rfl
  | false => exact (boundBelow_sameStore v _).discard.bind_eq fun _ => .pure rfl

theorem newParameters_sameStore (params : List DeclId) :
    Matches SameStore Eq (newParameters u params) (newParameters u params) := by
  induction params with
  | nil => exact .pure rfl
  | cons d rest ih =>
    exact (newParameter_sameStore u d).bind_eq fun v => ih.bind_eq fun _ => .pure rfl

theorem newFunction_sameStore (func : DeclId) :
    Matches SameStore Eq (newFunction u func) (newFunction u func) := by
  refine Matches.bind_lift (Both.refl (u.decl func)) fun d _ hd => ?_
  subst hd
  split
  · refine (newPointer_sameStore _ _ _).bind_eq fun r => ?_
    exact (newParameters_sameStore u _).bind_eq fun slots => allocate_sameStore _
  · exact .fault

end Session

end CheckedPointers
