import CheckedPointers.Proofs.Constraint.Classes
import Mathlib.Tactic.ByContra

/-!
Solving gives the least categories that satisfy what was recorded, whatever the order in which it
was recorded.
-/
namespace CheckedPointers

namespace Solution

def Solves (value : Atom → Category) (cs : Array Constraint) : Prop :=
  ∀ c ∈ cs, Satisfies value c

def IsLeast (value : Atom → Category) (cs : Array Constraint) : Prop :=
  Solves value cs ∧ ∀ other, Solves other cs → ∀ a, value a ≤ other a

theorem IsLeast.unique {value other : Atom → Category} {cs : Array Constraint}
    (h : IsLeast value cs) (h' : IsLeast other cs) : value = other := by
  funext a
  exact Category.le_antisymm (h.2 other h'.1 a) (h'.2 value h.1 a)

/-- A constraint holds if and only if its normal form does. -/
@[simp] theorem satisfies_normalized (value : Atom → Category) (c : Constraint) :
    Satisfies value c.normalized ↔ Satisfies value c := by
  cases c with
  | equal a b =>
    simp only [Constraint.normalized]
    split
    · exact eq_comm
    · rfl
  | atLeast a k => rfl

/-- Two snapshots of as many atoms agree once they give every atom one category. -/
theorem ext_category {sol sol' : Solution} (hsize : sol.values.size = sol'.values.size)
    (h : ∀ a, sol.category a = sol'.category a) : sol = sol' := by
  obtain ⟨values⟩ := sol
  obtain ⟨values'⟩ := sol'
  congr 1
  apply Array.ext hsize
  intro i hi hi'
  have hc := h i
  simp only at hi hi'
  simpa [category, hi, hi'] using hc

end Solution

namespace Category

/-- The least safe category with a property, or `ptr` where there is none. -/
def IsLeastSafe (P : Category → Prop) (c : Category) : Prop :=
  (P c ∧ ∀ k, P k → k ≤ c) ∨ (c = ptr ∧ ∀ k, ¬ P k)

/-- In a chain a least upper bound is reached. -/
theorem isLeastSafe_of_le_iff {P : Category → Prop} {c : Category}
    (h : ∀ d, c ≤ d ↔ ∀ k, P k → k ≤ d) : IsLeastSafe P c := by
  have above : ∀ k, P k → k ≤ c := (h c).1 (le_refl c)
  by_cases hc : P c
  · exact .inl ⟨hc, above⟩
  · have hptr : c = ptr := by
      by_contra hne
      obtain ⟨p, hp, below⟩ := exists_below hne
      refine hp ((h p).2 fun k hk => below k fun hck => hc ?_)
      exact le_antisymm hck (above k hk) ▸ hk
    refine .inr ⟨hptr, fun k hk => hc ?_⟩
    have hk' : k = ptr := le_ptr.1 (hptr ▸ above k hk)
    exact hptr ▸ hk' ▸ hk

end Category

namespace ConstraintSystem

variable {s t : ConstraintSystem} {c : Constraint} {a b : Atom}

theorem solve_category (s : ConstraintSystem) (a : Atom) :
    s.solve.category a = (s.cells[a]?.map Cell.bound).getD .ptr := by
  simp [solve, Solution.category, Category.mostSafe]

@[simp] theorem solve_values_size (s : ConstraintSystem) :
    s.solve.values.size = s.cells.size := by simp [solve]

/-! ## Recording -/

/-- The cells can be brought up to date exactly when every atom is there. -/
theorem cellsAfter?_isSome (cells : Array Cell) (c : Constraint) :
    (cellsAfter? cells c).isSome ↔ c.Known cells.size := by
  cases c with
  | equal a b =>
    rcases Nat.lt_or_ge a cells.size with ha | ha <;>
      rcases Nat.lt_or_ge b cells.size with hb | hb <;>
        simp [cellsAfter?, ha, hb, Nat.not_lt.2]
  | atLeast a k =>
    rcases Nat.lt_or_ge a cells.size with ha | ha <;> simp [cellsAfter?, ha, Nat.not_lt.2]

/-- Constraints neither make nor drop atoms. -/
theorem size_cellsAfter? {cells cells' : Array Cell} (h : cellsAfter? cells c = some cells') :
    cells'.size = cells.size := by
  cases c with
  | equal a b =>
    simp only [cellsAfter?, Option.bind_eq_bind, Option.bind_eq_some_iff] at h
    obtain ⟨x, -, y, -, he⟩ := h
    rw [← Option.some.inj he, Array.size_map]
  | atLeast a k =>
    simp only [cellsAfter?, Option.bind_eq_bind, Option.bind_eq_some_iff] at h
    obtain ⟨x, -, he⟩ := h
    rw [← Option.some.inj he, Array.size_map]

/-- Nothing happens for a constraint that says nothing or was recorded before. -/
theorem add_old (h : c.normalized.isTrivial ∨ c.normalized ∈ s.constraints) :
    s.add c = (.ok false, s) := by
  rw [add, if_pos h]

/-- Any other constraint on known atoms is recorded last. -/
theorem add_new (h : ¬ (c.normalized.isTrivial ∨ c.normalized ∈ s.constraints))
    (hk : c.Known s.cells.size) :
    ∃ cells, cellsAfter? s.cells c.normalized = some cells ∧
      s.add c = (.ok true, ⟨cells, s.constraints.push c.normalized⟩) := by
  have hsome := (cellsAfter?_isSome s.cells c.normalized).2 (by simpa using hk)
  obtain ⟨cells, hcells⟩ := Option.isSome_iff_exists.1 hsome
  refine ⟨cells, hcells, ?_⟩
  simp only [add, if_neg h, hcells]

/-- A constraint on an unknown atom is the only one that fails. -/
theorem add_fails (h : ¬ (c.normalized.isTrivial ∨ c.normalized ∈ s.constraints))
    (hk : ¬ c.Known s.cells.size) :
    s.add c = (.error .unknownId, ⟨s.cells, s.constraints.push c.normalized⟩) := by
  have hnone : cellsAfter? s.cells c.normalized = none := by
    rw [← Option.not_isSome_iff_eq_none, cellsAfter?_isSome]
    simpa using hk
  simp only [add, if_neg h, hnone]

/-- Recording answers whether the list grew, and it grows by the canonical form alone. -/
theorem add_known (hk : c.Known s.cells.size) :
    ((s.add c).1 = .ok true ∧ (s.add c).2.constraints = s.constraints.push c.normalized) ∨
      ((s.add c).1 = .ok false ∧ (s.add c).2 = s) := by
  by_cases h : c.normalized.isTrivial ∨ c.normalized ∈ s.constraints
  · rw [add_old h]
    exact .inr ⟨rfl, rfl⟩
  · obtain ⟨cells, -, he⟩ := add_new h hk
    rw [he]
    exact .inl ⟨rfl, rfl⟩

@[simp] theorem add_cells_size (s : ConstraintSystem) (c : Constraint) :
    (s.add c).2.cells.size = s.cells.size := by
  by_cases h : c.normalized.isTrivial ∨ c.normalized ∈ s.constraints
  · rw [add_old h]
  · by_cases hk : c.Known s.cells.size
    · obtain ⟨cells, hcells, he⟩ := add_new h hk
      rw [he]
      exact size_cellsAfter? hcells
    · rw [add_fails h hk]

/-- What is recorded afterwards: what was before, and the new constraint if it says something. -/
theorem mem_add_constraints (s : ConstraintSystem) (c d : Constraint) :
    d ∈ (s.add c).2.constraints ↔
      d ∈ s.constraints ∨ (d = c.normalized ∧ ¬ c.normalized.isTrivial) := by
  by_cases h : c.normalized.isTrivial ∨ c.normalized ∈ s.constraints
  · rw [add_old h]
    grind
  · have hpush : (s.add c).2.constraints = s.constraints.push c.normalized := by
      by_cases hk : c.Known s.cells.size
      · obtain ⟨cells, -, he⟩ := add_new h hk
        rw [he]
      · rw [add_fails h hk]
    rw [hpush, Array.mem_push]
    grind

/-- Recording only appends. -/
theorem add_constraints_prefix (s : ConstraintSystem) (c : Constraint) :
    s.constraints.toList <+: (s.add c).2.constraints.toList := by
  by_cases h : c.normalized.isTrivial ∨ c.normalized ∈ s.constraints
  · simp [add_old h]
  · by_cases hk : c.Known s.cells.size
    · obtain ⟨cells, -, he⟩ := add_new h hk
      rw [he, Array.toList_push]
      exact List.prefix_append ..
    · rw [add_fails h hk, Array.toList_push]
      exact List.prefix_append ..

/-- A recorded constraint leaves sound cells sound: an equation joins the two classes it names, and
a bound raises one. -/
theorem Sound.add (h : Sound s) (hk : c.Known s.cells.size) : Sound (s.add c).2 := by
  by_cases hold : c.normalized.isTrivial ∨ c.normalized ∈ s.constraints
  · rwa [add_old hold]
  · obtain ⟨cells, hcells, he⟩ := add_new hold hk
    rw [he]
    rw [not_or] at hold
    cases c with
    | equal a b =>
      -- the canonical form has its smaller atom first
      have hform : ∃ d e, (Constraint.equal a b).normalized = .equal d e ∧ d ≤ e := by
        simp only [Constraint.normalized]
        split
        · next hba => exact ⟨b, a, rfl, Nat.le_of_lt hba⟩
        · next hba => exact ⟨a, b, rfl, Nat.le_of_not_lt hba⟩
      obtain ⟨d, e, hde, hle⟩ := hform
      rw [hde] at hold hcells ⊢
      simp only [cellsAfter?, Option.bind_eq_bind, Option.bind_eq_some_iff] at hcells
      obtain ⟨x, hx, y, hy, hcells⟩ := hcells
      have hne : d ≠ e := by simpa [Constraint.isTrivial] using hold.1
      rw [← Option.some.inj hcells]
      exact h.unite hx hy (Nat.lt_of_le_of_ne hle hne) hold.2
    | atLeast a k =>
      simp only [Constraint.normalized] at hold hcells ⊢
      simp only [cellsAfter?, Option.bind_eq_bind, Option.bind_eq_some_iff] at hcells
      obtain ⟨x, hx, hcells⟩ := hcells
      rw [← Option.some.inj hcells]
      exact h.raise hx hold.2

/-! ## Solving -/

def BoundReaches (cs : Array Constraint) (a : Atom) (k : Category) : Prop :=
  ∃ b, .atLeast b k ∈ cs ∧ Linked cs a b

/-- The category of an atom is the join of the bounds that reach it. -/
theorem Sound.category_le_iff (h : Sound s) (ha : a < s.cells.size) (d : Category) :
    s.solve.category a ≤ d ↔ ∀ k, BoundReaches s.constraints a k → k ≤ d := by
  have hx := Array.getElem?_eq_getElem ha
  rw [solve_category, hx]
  refine (h.bound_le_iff hx d).trans ⟨?_, ?_⟩
  · rintro hall k ⟨b, hb, hl⟩
    exact hall b k hb hl
  · exact fun hall b k hb hl => hall k ⟨b, hb, hl⟩

theorem Sound.isLeastSafe (h : Sound s) (ha : a < s.cells.size) :
    (s.solve.category a).IsLeastSafe (BoundReaches s.constraints a) :=
  Category.isLeastSafe_of_le_iff (h.category_le_iff ha)

/-- Solving sound cells satisfies all that was recorded. -/
theorem Sound.solves (h : Sound s) : Solution.Solves s.solve.category s.constraints := by
  intro c hc
  cases c with
  | equal a b =>
    obtain ⟨ha, hb⟩ := h.known _ hc
    have hl := Linked.of_equal hc
    have reach (k : Category) :
        BoundReaches s.constraints a k ↔ BoundReaches s.constraints b k :=
      ⟨fun ⟨d, hd, hr⟩ => ⟨d, hd, hl.symm.trans hr⟩, fun ⟨d, hd, hr⟩ => ⟨d, hd, hl.trans hr⟩⟩
    have le_iff (d : Category) : s.solve.category a ≤ d ↔ s.solve.category b ≤ d := by
      simp only [h.category_le_iff ha, h.category_le_iff hb, reach]
    exact Category.le_antisymm ((le_iff _).2 (Category.le_refl _))
      ((le_iff _).1 (Category.le_refl _))
  | atLeast a k =>
    have ha : a < s.cells.size := h.known _ hc
    exact (h.category_le_iff ha _).1 (Category.le_refl _) k ⟨a, hc, .refl _ a⟩

/-- Cells that are sound yield the least solution. -/
theorem Sound.isLeast (h : Sound s) : Solution.IsLeast s.solve.category s.constraints := by
  refine ⟨h.solves, fun other hother a => ?_⟩
  by_cases ha : a < s.cells.size
  · rw [h.category_le_iff ha]
    rintro k ⟨b, hb, hl⟩
    rw [hl.value_eq hother]
    exact hother _ hb
  · rw [solve_category, Array.getElem?_eq_none (Nat.not_lt.1 ha)]
    exact Category.ptr_le _

/-- Only the set of recorded constraints counts. -/
theorem Sound.category_eq (hs : Sound s) (ht : Sound t)
    (h : ∀ c, c ∈ s.constraints ↔ c ∈ t.constraints) (a : Atom) :
    s.solve.category a = t.solve.category a := by
  have hleast : Solution.IsLeast s.solve.category t.constraints := by
    have hs := hs.isLeast
    simpa only [Solution.IsLeast, Solution.Solves, h] using hs
  rw [hleast.unique ht.isLeast]

/-- Recording what a solution already satisfies does not change it. -/
theorem Sound.solve_eq_of_solves (hs : Sound s) (ht : Sound t)
    (hsize : s.cells.size = t.cells.size) (hold : ∀ c ∈ s.constraints, c ∈ t.constraints)
    (hnew : Solution.Solves s.solve.category t.constraints) : s.solve = t.solve := by
  refine Solution.ext_category (by simpa using hsize) fun a => Category.le_antisymm ?_ ?_
  · exact hs.isLeast.2 _ (fun c hc => ht.solves c (hold c hc)) a
  · exact ht.isLeast.2 _ hnew a

/-- More constraints never make an atom safer. -/
theorem Sound.solve_le (hs : Sound s) (ht : Sound t)
    (hold : ∀ c ∈ s.constraints, c ∈ t.constraints) (a : Atom) :
    s.solve.category a ≤ t.solve.category a :=
  hs.isLeast.2 _ (fun c hc => ht.solves c (hold c hc)) a

end ConstraintSystem

end CheckedPointers
