import CheckedPointers.Proofs.Constraint.LeastSolution

/-!
Every history of a constraint store. What solving answers depends on the set of constraints that
was recorded and on nothing else.
-/
namespace CheckedPointers

namespace ConstraintSystem

inductive Request where
  | fresh
  | record (c : Constraint)
  | solve
  deriving DecidableEq

namespace Request

def Known (n : Nat) : Request → Prop
  | record c => c.Known n
  | fresh | solve => True

instance (n : Nat) : (r : Request) → Decidable (r.Known n)
  | record c => inferInstanceAs (Decidable (c.Known n))
  | fresh | solve => inferInstanceAs (Decidable True)

end Request

def after (s : ConstraintSystem) : Request → ConstraintSystem
  | .fresh => s.fresh.2
  | .record c => (s.add c).2
  | .solve => s

def run (s : ConstraintSystem) (rs : List Request) : ConstraintSystem := rs.foldl after s

/-- Each call names only atoms that are there when it is made. -/
def Allowed : ConstraintSystem → List Request → Prop
  | _, [] => True
  | s, r :: rest => r.Known s.cells.size ∧ Allowed (s.after r) rest

instance : (s : ConstraintSystem) → (rs : List Request) → Decidable (Allowed s rs)
  | _, [] => inferInstanceAs (Decidable True)
  | s, r :: rest =>
    have := instDecidableAllowed (s.after r) rest
    inferInstanceAs (Decidable (r.Known s.cells.size ∧ Allowed (s.after r) rest))

@[simp] theorem run_nil (s : ConstraintSystem) : s.run [] = s := rfl
@[simp] theorem run_cons (s : ConstraintSystem) (r : Request) (rest : List Request) :
    s.run (r :: rest) = (s.after r).run rest := rfl

theorem Sound.after {s : ConstraintSystem} {r : Request} (h : Sound s)
    (hr : r.Known s.cells.size) : Sound (s.after r) := by
  cases r with
  | fresh => exact h.fresh
  | record c => exact h.add hr
  | solve => exact h

theorem Sound.run {s : ConstraintSystem} {rs : List Request} (h : Sound s)
    (hrs : Allowed s rs) : Sound (s.run rs) := by
  induction rs generalizing s with
  | nil => exact h
  | cons r rest ih => exact ih (h.after hrs.1) hrs.2

/-- Atoms come from `fresh` alone. -/
theorem run_cells_size (s : ConstraintSystem) (rs : List Request) :
    (s.run rs).cells.size = s.cells.size + rs.count .fresh := by
  induction rs generalizing s with
  | nil => simp
  | cons r rest ih =>
    rw [run_cons, ih, List.count_cons]
    cases r with
    | fresh => simp [after, ConstraintSystem.fresh]; omega
    | record c => simp [after]
    | solve => simp [after]

/-- What stands in the list is what was asked to be recorded and says something. -/
theorem mem_run_constraints (s : ConstraintSystem) (rs : List Request) (d : Constraint) :
    d ∈ (s.run rs).constraints ↔
      d ∈ s.constraints ∨ ∃ c, .record c ∈ rs ∧ c.normalized = d ∧ ¬ d.isTrivial := by
  induction rs generalizing s with
  | nil => simp
  | cons r rest ih =>
    rw [run_cons, ih]
    cases r with
    | fresh => simp [after, ConstraintSystem.fresh]
    | record c =>
      rw [after, mem_add_constraints]
      constructor
      · rintro ((h | ⟨rfl, h⟩) | ⟨e, he, h⟩)
        · exact .inl h
        · exact .inr ⟨c, List.mem_cons_self, rfl, h⟩
        · exact .inr ⟨e, List.mem_cons_of_mem _ he, h⟩
      · rintro (h | ⟨e, he, rfl, h⟩)
        · exact .inl (.inl h)
        · rcases List.mem_cons.1 he with he | he
          · obtain rfl := Request.record.inj he
            exact .inl (.inr ⟨rfl, h⟩)
          · exact .inr ⟨e, he, rfl, h⟩
    | solve => simp [after]

/-- No constraint stands twice in the list, not even with the sides of an equation swapped. -/
theorem Sound.pairwise_normalized {s : ConstraintSystem} (h : Sound s) :
    s.constraints.toList.Pairwise fun c d => c.normalized ≠ d.normalized := by
  refine h.nodup.imp_of_mem fun hc hd hne he => hne ?_
  rwa [(h.canonical _ (Array.mem_def.2 hc)).1, (h.canonical _ (Array.mem_def.2 hd)).1] at he

theorem Sound.equal_self_not_mem {s : ConstraintSystem} (h : Sound s) (a : Atom) :
    .equal a a ∉ s.constraints := fun ha => (h.canonical _ ha).2 (by simp [Constraint.isTrivial])

/-- Whatever calls were made, and in whatever order: solving gives each atom the least safe bound
that reaches it along recorded equations; the categories are the least that satisfy the recorded
constraints, and only the set of these counts. The list holds what was asked for without
repetition, and a call answers whether it made the list grow. -/
theorem run_solve_isLeast (rs : List Request) (h : Allowed empty rs) :
    let s := empty.run rs
    (s.cells.size = rs.count .fresh ∧ s.solve.values.size = s.cells.size) ∧
    (∀ a < s.cells.size,
      (s.solve.category a).IsLeastSafe fun k =>
        ∃ b, .atLeast b k ∈ s.constraints ∧ Linked s.constraints a b) ∧
    Solution.IsLeast s.solve.category s.constraints ∧
    (∀ rs', Allowed empty rs' →
      (∀ c, c ∈ (empty.run rs').constraints ↔ c ∈ s.constraints) →
      ∀ a, (empty.run rs').solve.category a = s.solve.category a) ∧
    (∀ d, d ∈ s.constraints ↔ ∃ c, .record c ∈ rs ∧ c.normalized = d ∧ ¬ d.isTrivial) ∧
    (s.constraints.toList.Pairwise fun c d => c.normalized ≠ d.normalized) ∧
    (∀ a, .equal a a ∉ s.constraints) ∧
    ∀ c : Constraint, c.Known s.cells.size →
      ((s.add c).1 = .ok true ∧ (s.add c).2.constraints = s.constraints.push c.normalized) ∨
        ((s.add c).1 = .ok false ∧ (s.add c).2 = s) := by
  have hs := sound_empty.run h
  refine ⟨⟨?_, solve_values_size _⟩, fun a ha => hs.isLeastSafe ha, hs.isLeast, ?_, ?_,
    hs.pairwise_normalized, hs.equal_self_not_mem, fun c hc => add_known hc⟩
  · rw [run_cells_size]
    simp [empty]
  · intro rs' h' hset a
    exact (sound_empty.run h').category_eq hs hset a
  · intro d
    rw [mem_run_constraints]
    simp [empty]

/-- Two classes that both carry a bound are merged between two solutions. -/
theorem run_solve_isLeast_merge :
    let rs : List Request := [.fresh, .fresh, .fresh, .record (.atLeast 0 .arr),
      .record (.atLeast 2 .ntArr), .solve, .record (.equal 2 0), .record (.equal 0 2),
      .record (.equal 1 1)]
    Allowed empty rs ∧
      ((empty.run rs).solve.category 0).IsLeastSafe fun k =>
        ∃ b, .atLeast b k ∈ (empty.run rs).constraints ∧ Linked (empty.run rs).constraints 0 b :=
  ⟨by decide +kernel, (run_solve_isLeast _ (by decide +kernel)).2.1 0 (by decide +kernel)⟩

end ConstraintSystem

end CheckedPointers
