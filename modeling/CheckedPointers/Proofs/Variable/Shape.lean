import CheckedPointers.Proofs.Variable.Coincidence
import Mathlib.Data.List.Forall2

/-!
Variables of one shape. Where two of them coincide nothing is left over: each atom of the one is
the same as some atom of the other.
-/
namespace CheckedPointers

theorem VarSet.exists_mem {set : VarSet} (h : set ≠ .empty) : ∃ v, v ∈ set := by
  obtain ⟨_ | ⟨v, rest⟩⟩ := set
  · exact absurd rfl h
  · exact ⟨v, List.mem_cons_self⟩

namespace Arena

variable {arena : Arena} {same : Atom → Atom → Prop} {P : Atom → Prop} {n : Nat} {a b v : VarId}

/-- A pointer owns its levels and what the function that it points to owns. -/
theorem WellFormed.owns_pointer (h : arena.WellFormed n) {p : PointerVariable}
    (hp : arena.pointer? v = some p) {x : Atom} :
    arena.Owns v x ↔ x ∈ p.atoms ∨ ∃ f, p.function = some f ∧ arena.Owns f x := by
  have hget := getElem?_of_pointer? hp
  cases hfun : p.function with
  | none =>
    have hatoms : arena.atoms? v = some p.atoms := by simp [atoms?, atomsWithin, hget, hfun]
    simp [Owns, hatoms]
  | some f =>
    obtain ⟨hlt, hf⟩ := h.attached hp hfun
    obtain ⟨below, hbelow, -⟩ := h.exists_atoms (lt_of_isFunction hf)
    have hatoms : arena.atoms? v = some (p.atoms ++ below) := by
      simp [atoms?, atomsWithin, hget, hfun, atomsWithin_mono hbelow hlt]
    simp [Owns, hatoms, hbelow]

/-- Two variables have as many levels and as many slots, filled alike, all the way down. -/
inductive SameShape (arena : Arena) : VarId → VarId → Prop where
  | pointers {a b : VarId} {p q : PointerVariable} (hp : arena.pointer? a = some p)
      (hq : arena.pointer? b = some q) (levels : p.atoms.length = q.atoms.length)
      (attached : p.function.isSome = q.function.isSome)
      (functions : ∀ f g, p.function = some f → q.function = some g → SameShape arena f g) :
      SameShape arena a b
  | functions {a b : VarId} {f g : FunctionVariable} (hf : arena.function? a = some f)
      (hg : arena.function? b = some g) (params : f.params.length = g.params.length)
      (filled : ∀ (i : Nat) (slot slot' : VarSet), f.slots[i]? = some slot →
        g.slots[i]? = some slot' → (slot = .empty ↔ slot' = .empty))
      (slots : ∀ (i : Nat) (slot slot' : VarSet), f.slots[i]? = some slot →
        g.slots[i]? = some slot' → ∀ x ∈ slot, ∀ y ∈ slot', SameShape arena x y) :
      SameShape arena a b

/-- Functions that fill all their slots, with variables of the same shapes. -/
theorem SameShape.of_filled {f g : FunctionVariable} {l l' : List VarId}
    (hf : arena.function? a = some f) (hg : arena.function? b = some g)
    (hl : f.slots = l.map VarSet.singleton) (hl' : g.slots = l'.map VarSet.singleton)
    (h : List.Forall₂ arena.SameShape l l') : arena.SameShape a b := by
  have hlen : f.slots.length = g.slots.length := by simp [hl, hl', h.length_eq]
  have hget : ∀ {l : List VarId} {i : Nat} {slot : VarSet},
      (l.map VarSet.singleton)[i]? = some slot → ∃ x, l[i]? = some x ∧ slot = .singleton x := by
    intro l i slot hslot
    rw [List.getElem?_map, Option.map_eq_some_iff] at hslot
    obtain ⟨x, hx, rfl⟩ := hslot
    exact ⟨x, hx, rfl⟩
  have hfull : ∀ x : VarId, VarSet.singleton x ≠ .empty := fun x hx =>
    VarSet.not_mem_empty x (hx ▸ (VarSet.mem_singleton x x).2 rfl)
  refine .functions hf hg (Nat.succ.inj hlen) (fun i slot slot' hslot hslot' => ?_)
    fun i slot slot' hslot hslot' x hx y hy => ?_
  · obtain ⟨x, -, rfl⟩ := hget (hl ▸ hslot)
    obtain ⟨y, -, rfl⟩ := hget (hl' ▸ hslot')
    exact ⟨fun hx => absurd hx (hfull x), fun hy => absurd hy (hfull y)⟩
  · obtain ⟨x', hx', rfl⟩ := hget (hl ▸ hslot)
    obtain ⟨y', hy', rfl⟩ := hget (hl' ▸ hslot')
    obtain ⟨hi, rfl⟩ := List.getElem?_eq_some_iff.1 hx'
    obtain ⟨hi', rfl⟩ := List.getElem?_eq_some_iff.1 hy'
    rw [VarSet.mem_singleton] at hx hy
    subst hx hy
    exact h.get hi hi'

theorem SameShape.symm (h : arena.SameShape a b) : arena.SameShape b a := by
  induction h with
  | pointers hp hq levels attached _ ih =>
    exact .pointers hq hp levels.symm attached.symm fun f g hf hg => ih g f hg hf
  | functions hf hg params filled _ ih =>
    exact .functions hg hf params.symm
      (fun i slot slot' hslot hslot' => (filled i slot' slot hslot' hslot).symm)
      fun i slot slot' hslot hslot' x hx y hy => ih i slot' slot hslot' hslot y hy x hx

/-- Functions with as many parameters have the same slots. -/
theorem exists_slot {f g : FunctionVariable} {i : Nat} {slot : VarSet}
    (params : f.params.length = g.params.length) (hslot : f.slots[i]? = some slot) :
    ∃ slot', g.slots[i]? = some slot' := by
  have hlt := (List.getElem?_eq_some_iff.1 hslot).1
  simp only [FunctionVariable.slots, List.length_cons] at hlt
  have hlt' : i < g.slots.length := by
    simp only [FunctionVariable.slots, List.length_cons]
    omega
  exact ⟨_, List.getElem?_eq_getElem hlt'⟩

/-- What coincides and has one shape is the same atom by atom. -/
theorem SameShape.exists_owned (h : arena.SameShape a b) (hwf : arena.WellFormed n)
    (hsame : Equivalence same) (hc : arena.Coincide same a b) {x : Atom} (hx : arena.Owns a x) :
    ∃ y, arena.Owns b y ∧ same x y := by
  induction h with
  | @pointers a b p q hp hq levels attached _ ih =>
    rcases (hwf.owns_pointer hp).1 hx with hx | ⟨f, hf, hx⟩
    · obtain ⟨i, hi⟩ := List.mem_iff_getElem?.1 hx
      have hlt : i < q.atoms.length := levels ▸ (List.getElem?_eq_some_iff.1 hi).1
      have hy : q.atoms[i]? = some q.atoms[i] := List.getElem?_eq_getElem hlt
      exact ⟨_, (hwf.owns_pointer hq).2 (.inl (List.mem_of_getElem? hy)),
        hc.levels hsame hp hq hi hy⟩
    · obtain ⟨g, hg⟩ : ∃ g, q.function = some g :=
        Option.isSome_iff_exists.1 (attached ▸ Option.isSome_iff_exists.2 ⟨f, hf⟩)
      obtain ⟨y, hy, hxy⟩ := ih f g hf hg (hc.attached hp hq hf hg) hx
      exact ⟨y, (hwf.owns_pointer hq).2 (.inr ⟨g, hg, hy⟩), hxy⟩
  | @functions a b f g hf hg params filled _ ih =>
    obtain ⟨slot, hslot, p, hp, hx⟩ := (hwf.owns_function hf).1 hx
    obtain ⟨i, hi⟩ := List.mem_iff_getElem?.1 hslot
    obtain ⟨slot', hslot'⟩ := exists_slot params hi
    have hmem := List.mem_of_getElem? hslot'
    -- the slot of the other function is not empty either
    rcases hwf.slots hg hmem with hnone | ⟨q, hq, -⟩
    · rw [(filled i _ _ hi hslot').2 hnone] at hp
      exact absurd hp (VarSet.not_mem_empty p)
    · have hq : q ∈ slot' := hq ▸ (VarSet.mem_singleton q q).2 rfl
      obtain ⟨y, hy, hxy⟩ := ih i _ _ hi hslot' p hp q hq
        (hc.slots hwf hf hg params hi hslot' p hp q hq) hx
      exact ⟨y, (hwf.owns_function hg).2 ⟨_, hmem, q, hq, hy⟩, hxy⟩

theorem SameShape.lt (h : arena.SameShape a b) : a < arena.size := by
  cases h with
  | pointers hp => exact lt_of_isPointer (isPointer_iff.2 ⟨_, hp⟩)
  | functions hf => exact lt_of_function? hf

/-- Where a function has something in a slot, a function of the same shape has something too. -/
theorem exists_filled {f g : FunctionVariable} {i : Nat} {slot : VarSet} {x : VarId}
    (params : f.params.length = g.params.length)
    (filled : ∀ (i : Nat) (slot slot' : VarSet), f.slots[i]? = some slot →
      g.slots[i]? = some slot' → (slot = .empty ↔ slot' = .empty))
    (hslot : f.slots[i]? = some slot) (hx : x ∈ slot) :
    ∃ slot' y, g.slots[i]? = some slot' ∧ y ∈ slot' := by
  obtain ⟨slot', hslot'⟩ := exists_slot params hslot
  have hfull : slot' ≠ .empty := fun hempty =>
    VarSet.not_mem_empty x ((filled i slot slot' hslot hslot').2 hempty ▸ hx)
  obtain ⟨y, hy⟩ := VarSet.exists_mem hfull
  exact ⟨slot', y, hslot', hy⟩

/-- By induction on the first one: each case meets its own kind in the second. -/
theorem SameShape.trans (h : arena.SameShape a b) (h' : arena.SameShape b v) :
    arena.SameShape a v := by
  induction h generalizing v with
  | pointers hp hq levels attached _ ih =>
    cases h' with
    | pointers hq' hr levels' attached' functions =>
      obtain rfl := Option.some.inj (hq.symm.trans hq')
      refine .pointers hp hr (levels.trans levels') (attached.trans attached') fun f h hf hh => ?_
      obtain ⟨g, hg⟩ := Option.isSome_iff_exists.1 (attached ▸ Option.isSome_iff_exists.2 ⟨f, hf⟩)
      exact ih f g hf hg (functions g h hg hh)
    | functions hg => exact absurd hq (pointer?_ne_of_function? hg)
  | functions hf hg params filled _ ih =>
    cases h' with
    | pointers hq => exact absurd hq (pointer?_ne_of_function? hg)
    | functions hg' hh params' filled' slots =>
      obtain rfl := Option.some.inj (hg.symm.trans hg')
      refine .functions hf hh (params.trans params') (fun i slot slot'' hslot hslot'' => ?_)
        fun i slot slot'' hslot hslot'' x hx z hz => ?_
      · obtain ⟨slot', hslot'⟩ := exists_slot params hslot
        exact (filled i slot slot' hslot hslot').trans (filled' i slot' slot'' hslot' hslot'')
      · obtain ⟨slot', y, hslot', hy⟩ := exists_filled params filled hslot hx
        exact ih i slot slot' hslot hslot' x hx y hy (slots i slot' slot'' hslot' hslot'' y hy z hz)

/-- Variables of one shape coincide with all that coincides with one of them. -/
theorem SameShape.coincide_trans (h : arena.SameShape a b) (hwf : arena.WellFormed n)
    (hsame : Equivalence same) (h' : arena.SameShape b v) (hab : arena.Coincide same a b)
    (hbv : arena.Coincide same b v) : arena.Coincide same a v := by
  induction h generalizing v with
  | @pointers a b p q hp hq levels attached _ ih =>
    cases h' with
    | functions hg => exact absurd hq (pointer?_ne_of_function? hg)
    | @pointers _ _ _ r hq' hr levels' attached' functions =>
      obtain rfl := Option.some.inj (hq.symm.trans hq')
      refine .pointers hp hr (fun e he => ?_) fun f h hf hh => ?_
      · obtain ⟨i, hi⟩ := List.mem_iff_getElem?.1 he
        obtain ⟨hx, hz⟩ := List.getElem?_zip_eq_some.1 hi
        have hlt : i < q.atoms.length := levels ▸ (List.getElem?_eq_some_iff.1 hx).1
        have hy : q.atoms[i]? = some q.atoms[i] := List.getElem?_eq_getElem hlt
        exact hsame.trans (hab.levels hsame hp hq hx hy) (hbv.levels hsame hq hr hy hz)
      · obtain ⟨g, hg⟩ := Option.isSome_iff_exists.1 (attached ▸ Option.isSome_iff_exists.2 ⟨f, hf⟩)
        exact ih f g hf hg (functions g h hg hh) (hab.attached hp hq hf hg)
          (hbv.attached hq hr hg hh)
  | @functions a b f g hf hg params filled _ ih =>
    cases h' with
    | pointers hq => exact absurd hq (pointer?_ne_of_function? hg)
    | @functions _ _ _ h hg' hh params' filled' slots =>
      obtain rfl := Option.some.inj (hg.symm.trans hg')
      have hslots : ∀ (i : Nat) (slot slot'' : VarSet), f.slots[i]? = some slot →
          h.slots[i]? = some slot'' → ∀ x ∈ slot, ∀ z ∈ slot'', arena.Coincide same x z := by
        intro i slot slot'' hslot hslot'' x hx z hz
        obtain ⟨slot', y, hslot', hy⟩ := exists_filled params filled hslot hx
        exact ih i slot slot' hslot hslot' x hx y hy
          (slots i slot' slot'' hslot' hslot'' y hy z hz)
          (hab.slots hwf hf hg params hslot hslot' x hx y hy)
          (hbv.slots hwf hg hh params' hslot' hslot'' y hy z hz)
      refine .functions hf hh (hslots 0 _ _ rfl rfl) fun _ e he => ?_
      obtain ⟨i, hi⟩ := List.mem_iff_getElem?.1 he
      obtain ⟨hslot, hslot''⟩ := List.getElem?_zip_eq_some.1 hi
      exact hslots (i + 1) _ _ hslot hslot''

/-- What is the same of both holds of both. -/
theorem SameShape.all (h : arena.SameShape a b) (hwf : arena.WellFormed n)
    (hsame : Equivalence same) (hP : ∀ x y, same x y → P y → P x)
    (hc : arena.Coincide same a b) (hall : arena.All P b) : arena.All P a := by
  obtain ⟨atoms, hatoms, -⟩ := hwf.exists_atoms h.lt
  refine ⟨atoms, hatoms, fun x hx => ?_⟩
  obtain ⟨y, hy, hxy⟩ := h.exists_owned hwf hsame hc ⟨atoms, hatoms, hx⟩
  exact hP x y hxy (hall.of_owns hy)

end Arena

end CheckedPointers
