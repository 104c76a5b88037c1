import CheckedPointers.Proofs.Session.Recording
import CheckedPointers.Session.Declare

/-!
Making variables. A new variable names older ones of the right kind, so the session stays well
formed.
-/
namespace CheckedPointers

open Op

namespace Session

variable {s t : Session}

theorem freshAtom_meets (s : Session) :
    Meets .creates freshAtom s fun a t => a < t.solver.cells.size := by
  have hgrows := s.solver.grows_fresh
  refine Meets.modifyGet ⟨⟨rfl, hgrows, .refl _, fun _ => id, fun hs => ?_⟩, rfl⟩ ?_
  · exact hs.extend hgrows (.refl _) (hs.arena.mono hgrows.size_le)
  · simp [ConstraintSystem.fresh]

theorem freshAtoms_meets (n : Nat) (s : Session) :
    Meets .creates (freshAtoms n) s fun atoms t => ∀ a ∈ atoms, a < t.solver.cells.size := by
  induction n generalizing s with
  | zero => exact Meets.pure (by simp)
  | succ n ih =>
    refine Meets.bind (freshAtom_meets s) fun a t _ ha => ?_
    refine Meets.bind (ih t) fun atoms u (htu : t.Creates u) hatoms => Meets.pure ?_
    intro b hb
    rcases List.mem_cons.1 hb with rfl | hb
    · exact Nat.lt_of_lt_of_le ha htu.solver.size_le
    · exact hatoms b hb

/-- A variable that names older ones of the right kind can be added. -/
theorem allocate_meets {x : Variable} (hx : s.arena.Admits s.solver.cells.size x) :
    Meets .creates (allocate x) s fun v t => t.arena[v]? = some x := by
  have hgrows := s.arena.grows_push x
  refine Meets.modifyGet ⟨⟨rfl, .refl _, hgrows, fun _ => id, fun hs => ?_⟩, rfl⟩ ?_
  · exact hs.extend (.refl _) hgrows (hs.arena.push hx)
  · simp

/-- A pointer can be made over anything that answers functions only. -/
theorem newPointerOver_meets {ty : CType} {name : String} {itype : Option String}
    {pointee : Op (Option VarId)}
    (hp : ∀ s, Meets .creates pointee s fun o t => ∀ f, o = some f → t.arena.isFunction f)
    (s : Session) :
    Meets .creates (newPointerOver ty name itype pointee) s fun v t => t.arena.isPointer v := by
  refine Meets.bind (freshAtoms_meets _ s) fun atoms t _ hatoms => ?_
  refine Meets.bind (hp t) fun o w (htw : t.Creates w) ho => ?_
  have hadmits : w.arena.Admits w.solver.cells.size
      (.pointer ⟨atoms, ty.bottom.display, name, o, ty.isArray, itype⟩) :=
    ⟨ho, fun a ha => Nat.lt_of_lt_of_le (hatoms a ha) htw.solver.size_le⟩
  refine (allocate_meets hadmits).mono fun v z _ hv => ?_
  exact Arena.isPointer_iff.2 ⟨_, Arena.pointer?_of_getElem? hv⟩

def HoldPointers (s : Session) (slots : List VarSet) : Prop :=
  ∀ slot ∈ slots, ∃ p, slot = .singleton p ∧ s.arena.isPointer p

theorem HoldPointers.cons {p : VarId} {slots : List VarSet} (hp : s.arena.isPointer p)
    (hst : s.arena.Grows t.arena) (h : t.HoldPointers slots) :
    t.HoldPointers (.singleton p :: slots) := by
  intro slot hslot
  rcases List.mem_cons.1 hslot with rfl | hslot
  · exact ⟨p, rfl, hst.isPointer hp⟩
  · exact h slot hslot

/-- A signature over pointers that are there can be added. -/
theorem allocate_function_meets {name : String} {r : VarId} {slots : List VarSet}
    {hasBody hasPrototype : Bool} {signature : Option Signature} (hr : s.arena.isPointer r)
    (hslots : s.HoldPointers slots) :
    Meets .creates
      (allocate (.function ⟨name, .singleton r, slots, hasBody, hasPrototype, signature⟩)) s
      fun v t => t.arena.function? v =
        some ⟨name, .singleton r, slots, hasBody, hasPrototype, signature⟩ := by
  have hadmits : s.arena.Admits s.solver.cells.size
      (.function ⟨name, .singleton r, slots, hasBody, hasPrototype, signature⟩) := by
    intro slot hslot
    rcases List.mem_cons.1 hslot with rfl | hslot
    · exact .inr ⟨r, rfl, Arena.lt_of_isPointer hr, hr⟩
    · obtain ⟨p, rfl, hp⟩ := hslots slot hslot
      exact .inr ⟨p, rfl, Arena.lt_of_isPointer hp, hp⟩
  exact (allocate_meets hadmits).mono fun _ _ _ hv => Arena.function?_of_getElem? hv

mutual

/-- What lies at the bottom of a type's levels is a function, if there is anything. -/
theorem newPointee_meets (name : String) (s : Session) : (ty : CType) →
    Meets .creates (newPointee name ty) s fun o t => ∀ f, o = some f → t.arena.isFunction f
  | .pointer inner => by
    rw [newPointee]
    exact newPointee_meets name s inner
  | .array elem _ => by
    rw [newPointee]
    exact newPointee_meets name s elem
  | .typedef _ underlying => by
    rw [newPointee]
    exact newPointee_meets name s underlying
  | .function ret params variadic hasPrototype => by
    rw [newPointee]
    refine Meets.bind (newPointerOver_meets (fun s => newPointee_meets name s ret) s)
      fun r t _ hr => ?_
    refine Meets.bind (newSlots_meets t params) fun slots w (htw : t.Creates w) hslots => ?_
    refine Meets.bind (allocate_function_meets (htw.arena.isPointer hr) hslots)
      fun v z _ hv => Meets.pure ?_
    rintro f ⟨⟩
    exact Arena.isFunction_iff.2 ⟨_, hv⟩
  | .builtin _ => by
    rw [newPointee]
    exact Meets.pure (fun f hf => nomatch hf)
  | .record _ => by
    rw [newPointee]
    exact Meets.pure (fun f hf => nomatch hf)

theorem newSlots_meets (s : Session) : (tys : List CType) →
    Meets .creates (newSlots tys) s fun slots t => t.HoldPointers slots
  | [] => by
    rw [newSlots]
    exact Meets.pure (fun slot hslot => nomatch hslot)
  | ty :: rest => by
    rw [newSlots]
    refine Meets.bind (newPointerOver_meets (fun s => newPointee_meets "" s ty) s)
      fun p t _ hp => ?_
    refine Meets.bind (newSlots_meets t rest) fun slots w (htw : t.Creates w) hslots => ?_
    exact Meets.pure (hslots.cons hp htw.arena)

end

theorem newPointer_meets (ty : CType) (name : String) (itype : Option String) (s : Session) :
    Meets .creates (newPointer ty name itype) s fun v t => t.arena.isPointer v :=
  newPointerOver_meets (fun s => newPointee_meets name s ty) s

theorem newParameter_meets (u : TranslationUnit) (d : DeclId) (s : Session) :
    Meets .creates (newParameter u d) s fun v t => t.arena.isPointer v := by
  refine Meets.bind_lift fun p _ => ?_
  refine Meets.bind (newPointer_meets _ _ _ s) fun v w _ hv => ?_
  split
  · refine Meets.bind (P := fun _ z => z.Bounded .leastSafe v)
      (Meets.discard (boundBelow_meets v .leastSafe w).to_creates)
      fun _ z (hwz : w.Creates z) _ => ?_
    exact Meets.pure (hwz.arena.isPointer hv)
  · exact Meets.pure hv

theorem newParameters_meets (u : TranslationUnit) (ds : List DeclId) (s : Session) :
    Meets .creates (newParameters u ds) s fun slots t => t.HoldPointers slots := by
  induction ds generalizing s with
  | nil => exact Meets.pure (fun slot hslot => nomatch hslot)
  | cons d rest ih =>
    refine Meets.bind (newParameter_meets u d s) fun p t _ hp => ?_
    refine Meets.bind (ih t) fun slots w (htw : t.Creates w) hslots => ?_
    exact Meets.pure (hslots.cons hp htw.arena)

/-- The function variable of a declaration has its name, and a body if the declaration does. -/
theorem newFunction_meets (u : TranslationUnit) (func : DeclId) (s : Session) :
    Meets .creates (newFunction u func) s fun v t =>
      ∃ d f, u.decl func = .ok d ∧ d.isFunction ∧ t.arena.function? v = some f ∧
        f.name = d.name ∧ f.hasBody = d.hasBody := by
  refine Meets.bind_lift fun d hd => ?_
  split
  · next hkind =>
    refine Meets.bind (newPointer_meets _ _ _ s) fun r w _ hr => ?_
    refine Meets.bind (newParameters_meets u _ w) fun slots z (hwz : w.Creates z) hslots => ?_
    refine (allocate_function_meets (hwz.arena.isPointer hr) hslots).mono fun v y _ hv => ?_
    exact ⟨d, _, hd, by rw [Decl.isFunction, hkind], hv, rfl, rfl⟩
  · exact Meets.fault

end Session

end CheckedPointers
