import CheckedPointers.Variable.Basic

/-!
Arenas only grow. A well-formed one holds variables that name older ones of the right kind.
-/
namespace CheckedPointers

namespace Arena

def Grows (arena arena' : Arena) : Prop :=
  ∀ (v : VarId) (x : Variable), arena[v]? = some x → arena'[v]? = some x

variable {arena arena' arena'' : Arena} {v : VarId}

theorem Grows.refl (arena : Arena) : arena.Grows arena := fun _ _ h => h

theorem Grows.trans (h : arena.Grows arena') (h' : arena'.Grows arena'') :
    arena.Grows arena'' := fun v x hx => h' v x (h v x hx)

theorem grows_push (arena : Arena) (x : Variable) : Grows arena (arena.push x) := by
  intro v y hy
  have hv := (Array.getElem?_eq_some_iff.1 hy).1
  rw [Array.getElem?_push, if_neg (Nat.ne_of_lt hv)]
  exact hy

theorem Grows.size_le (h : arena.Grows arena') : arena.size ≤ arena'.size := by
  rcases Nat.eq_zero_or_pos arena.size with h0 | h0
  · omega
  · have hlast := h (arena.size - 1) arena[arena.size - 1]
      (Array.getElem?_eq_getElem (by omega))
    have := (Array.getElem?_eq_some_iff.1 hlast).1
    omega

theorem pointer?_of_getElem? {p : PointerVariable} (h : arena[v]? = some (.pointer p)) :
    arena.pointer? v = some p := by
  rw [Arena.pointer?, h]
  rfl

theorem function?_of_getElem? {f : FunctionVariable} (h : arena[v]? = some (.function f)) :
    arena.function? v = some f := by
  rw [Arena.function?, h]
  rfl

theorem getElem?_of_pointer? {x : PointerVariable} (h : arena.pointer? v = some x) :
    arena[v]? = some (.pointer x) := by
  simp only [Arena.pointer?, Option.bind_eq_bind, Option.bind_eq_some_iff] at h
  obtain ⟨y, hy, hx⟩ := h
  cases y with
  | pointer y => rw [hy, Option.some.inj hx]
  | function y => cases hx

theorem getElem?_of_function? {f : FunctionVariable} (h : arena.function? v = some f) :
    arena[v]? = some (.function f) := by
  simp only [Arena.function?, Option.bind_eq_bind, Option.bind_eq_some_iff] at h
  obtain ⟨y, hy, hx⟩ := h
  cases y with
  | pointer y => cases hx
  | function y => rw [hy, Option.some.inj hx]

theorem Grows.pointer? {p : PointerVariable} (h : arena.Grows arena')
    (hp : arena.pointer? v = some p) : arena'.pointer? v = some p := by
  simp only [Arena.pointer?, Option.bind_eq_bind, Option.bind_eq_some_iff] at hp ⊢
  obtain ⟨x, hx, hp⟩ := hp
  exact ⟨x, h v x hx, hp⟩

theorem Grows.function? {f : FunctionVariable} (h : arena.Grows arena')
    (hf : arena.function? v = some f) : arena'.function? v = some f := by
  simp only [Arena.function?, Option.bind_eq_bind, Option.bind_eq_some_iff] at hf ⊢
  obtain ⟨x, hx, hf⟩ := hf
  exact ⟨x, h v x hx, hf⟩

theorem isPointer_iff : arena.isPointer v ↔ ∃ p, arena.pointer? v = some p :=
  Option.isSome_iff_exists

theorem isFunction_iff : arena.isFunction v ↔ ∃ f, arena.function? v = some f :=
  Option.isSome_iff_exists

theorem not_isFunction (h : arena.isPointer v) : ¬ arena.isFunction v := by
  obtain ⟨p, hp⟩ := isPointer_iff.1 h
  intro hv
  obtain ⟨f, hf⟩ := isFunction_iff.1 hv
  simp only [Arena.pointer?, Arena.function?, Option.bind_eq_bind, Option.bind_eq_some_iff] at hp hf
  obtain ⟨x, hx, hp⟩ := hp
  obtain ⟨y, hy, hf⟩ := hf
  obtain rfl := Option.some.inj (hx.symm.trans hy)
  cases x
  · cases hf
  · cases hp

theorem Grows.isPointer (h : arena.Grows arena') (hv : arena.isPointer v) :
    arena'.isPointer v := by
  obtain ⟨p, hp⟩ := isPointer_iff.1 hv
  exact isPointer_iff.2 ⟨p, h.pointer? hp⟩

theorem Grows.isFunction (h : arena.Grows arena') (hv : arena.isFunction v) :
    arena'.isFunction v := by
  obtain ⟨f, hf⟩ := isFunction_iff.1 hv
  exact isFunction_iff.2 ⟨f, h.function? hf⟩

theorem lt_of_pointer? {p : PointerVariable} (h : arena.pointer? v = some p) :
    v < arena.size := by
  simp only [Arena.pointer?, Option.bind_eq_bind, Option.bind_eq_some_iff] at h
  obtain ⟨x, hx, -⟩ := h
  exact (Array.getElem?_eq_some_iff.1 hx).1

theorem lt_of_function? {f : FunctionVariable} (h : arena.function? v = some f) :
    v < arena.size := by
  simp only [Arena.function?, Option.bind_eq_bind, Option.bind_eq_some_iff] at h
  obtain ⟨x, hx, -⟩ := h
  exact (Array.getElem?_eq_some_iff.1 hx).1

theorem lt_of_isPointer (h : arena.isPointer v) : v < arena.size := by
  obtain ⟨p, hp⟩ := isPointer_iff.1 h
  exact lt_of_pointer? hp

theorem lt_of_isFunction (h : arena.isFunction v) : v < arena.size := by
  obtain ⟨f, hf⟩ := isFunction_iff.1 h
  exact lt_of_function? hf

/-- What is known of a variable that is there stays all that is known of it. -/
theorem Grows.getElem?_eq (h : arena.Grows arena') (hv : v < arena.size) :
    arena'[v]? = arena[v]? := by
  rw [Array.getElem?_eq_getElem hv]
  exact h v _ (Array.getElem?_eq_getElem hv)

theorem Grows.pointer?_eq (h : arena.Grows arena') (hv : v < arena.size) :
    arena'.pointer? v = arena.pointer? v := by
  simp only [Arena.pointer?, h.getElem?_eq hv]

theorem Grows.function?_eq (h : arena.Grows arena') (hv : v < arena.size) :
    arena'.function? v = arena.function? v := by
  simp only [Arena.function?, h.getElem?_eq hv]

theorem Grows.isFunction_eq (h : arena.Grows arena') (hv : v < arena.size) :
    arena'.isFunction v = arena.isFunction v := by
  simp only [Arena.isFunction, h.function?_eq hv]

/-- A slot of a function holds one pointer, unless nothing is known of the function. -/
def SlotBelow (arena : Arena) (v : VarId) (slot : VarSet) : Prop :=
  slot = .empty ∨ ∃ p, slot = .singleton p ∧ p < v ∧ arena.isPointer p

/-- Variables name older ones of the right kind, and atoms that are there. -/
structure WellFormed (arena : Arena) (atoms : Nat) : Prop where
  attached : ∀ {v p f}, arena.pointer? v = some p → p.function = some f →
    f < v ∧ arena.isFunction f
  slots : ∀ {v f slot}, arena.function? v = some f → slot ∈ f.slots → arena.SlotBelow v slot
  atom_lt : ∀ {v p a}, arena.pointer? v = some p → a ∈ p.atoms → a < atoms

theorem SlotBelow.grows {slot : VarSet} (h : arena.SlotBelow v slot) (hg : arena.Grows arena') :
    arena'.SlotBelow v slot :=
  h.imp_right fun ⟨p, hs, hlt, hp⟩ => ⟨p, hs, hlt, hg.isPointer hp⟩

theorem SlotBelow.isPointer {slot : VarSet} {w : VarId} (h : arena.SlotBelow v slot)
    (hw : w ∈ slot) : arena.isPointer w := by
  rcases h with rfl | ⟨p, rfl, -, hp⟩
  · exact absurd hw (VarSet.not_mem_empty w)
  · exact (VarSet.mem_singleton p w).1 hw ▸ hp

theorem WellFormed.mono {m n : Nat} (h : arena.WellFormed m) (hmn : m ≤ n) :
    arena.WellFormed n where
  attached := h.attached
  slots := h.slots
  atom_lt hp ha := Nat.lt_of_lt_of_le (h.atom_lt hp ha) hmn

/-- The function that a variable denotes is there, so a larger arena shows the same one. -/
theorem WellFormed.reachableFunction?_eq {n : Nat} (h : arena.WellFormed n)
    (hg : arena.Grows arena') (hv : v < arena.size) :
    arena'.reachableFunction? v = arena.reachableFunction? v := by
  have hreach : arena'.reachable? v = arena.reachable? v := by
    simp only [Arena.reachable?, hg.getElem?_eq hv]
  unfold Arena.reachableFunction?
  rw [hreach]
  refine Option.bind_congr fun w hw => hg.function?_eq ?_
  unfold Arena.reachable? at hw
  cases hx : arena[v]? with
  | none => simp [hx] at hw
  | some x =>
    cases x with
    | pointer p =>
      have hp : arena.pointer? v = some p := by simp [Arena.pointer?, hx, Variable.pointer?]
      have hf : p.function = some w := by simpa [hx] using hw
      exact lt_of_isFunction (h.attached hp hf).2
    | function f =>
      have hvw : v = w := by simpa [hx] using hw
      exact hvw ▸ hv

theorem function?_of_reachableFunction? {f : FunctionVariable}
    (h : arena.reachableFunction? v = some f) : ∃ w, arena.function? w = some f := by
  unfold Arena.reachableFunction? at h
  obtain ⟨w, -, hw⟩ := Option.bind_eq_some_iff.1 h
  exact ⟨w, hw⟩

def Admits (arena : Arena) (atoms : Nat) : Variable → Prop
  | .pointer p => (∀ f, p.function = some f → arena.isFunction f) ∧ ∀ a ∈ p.atoms, a < atoms
  | .function f => ∀ slot ∈ f.slots, arena.SlotBelow arena.size slot

/-- A pointer stays admissible one dereference down. -/
theorem WellFormed.admits_dereferenced {n : Nat} {p q : PointerVariable} (h : arena.WellFormed n)
    (hp : arena.pointer? v = some p) (hq : p.dereferenced? = some q) :
    arena.Admits n (.pointer q) := by
  unfold PointerVariable.dereferenced? at hq
  split at hq
  · next a b rest hatoms =>
    cases hq
    refine ⟨fun f hf => (h.attached hp hf).2, fun c hc => h.atom_lt hp ?_⟩
    rw [hatoms]
    exact List.mem_cons_of_mem _ hc
  · cases hq

theorem pointer?_push (arena : Arena) (x : Variable) (v : VarId) :
    pointer? (arena.push x) v = if v = arena.size then x.pointer? else arena.pointer? v := by
  simp only [Arena.pointer?, Array.getElem?_push]
  split <;> rfl

theorem function?_push (arena : Arena) (x : Variable) (v : VarId) :
    function? (arena.push x) v = if v = arena.size then x.function? else arena.function? v := by
  simp only [Arena.function?, Array.getElem?_push]
  split <;> rfl

/-- A new variable that names older ones only leaves the arena well formed. -/
theorem WellFormed.push {n : Nat} {x : Variable} (h : arena.WellFormed n)
    (hx : arena.Admits n x) : WellFormed (arena.push x) n where
  attached {v p f} hp hf := by
    rw [pointer?_push] at hp
    split at hp
    · next hv =>
      cases x with
      | function => cases hp
      | pointer q =>
        cases hp
        have hfun := hx.1 f hf
        exact ⟨hv ▸ lt_of_isFunction hfun, (arena.grows_push _).isFunction hfun⟩
    · have hold := h.attached hp hf
      exact ⟨hold.1, (arena.grows_push _).isFunction hold.2⟩
  slots {v f slot} hf hslot := by
    rw [function?_push] at hf
    split at hf
    · next hv =>
      cases x with
      | pointer => cases hf
      | function g =>
        cases hf
        subst hv
        exact (hx slot hslot).grows (arena.grows_push _)
    · exact (h.slots hf hslot).grows (arena.grows_push _)
  atom_lt {v p a} hp ha := by
    rw [pointer?_push] at hp
    split at hp
    · cases x with
      | function => cases hp
      | pointer q =>
        cases hp
        exact hx.2 a ha
    · exact h.atom_lt hp ha

end Arena

end CheckedPointers
