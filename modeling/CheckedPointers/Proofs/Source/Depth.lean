import CheckedPointers.Proofs.Source.Closed

/-!
How deep expressions nest: the paths of operands that lead down from an expression.
-/
namespace CheckedPointers

namespace TranslationUnit

inductive Descends (u : TranslationUnit) : Nat → ExprId → ExprId → Prop where
  | refl (e : ExprId) : Descends u 0 e e
  | operand {k : Nat} {e o p : ExprId} {x : Expr} (hx : u.expr e = .ok x) (ho : o ∈ x.operands)
    (h : Descends u k o p) : Descends u (k + 1) e p

/-- No path of operands down from the expression is longer. -/
def NestsWithin (u : TranslationUnit) (n : Nat) (e : ExprId) : Prop :=
  ∀ k o, u.Descends k e o → k ≤ n

variable {u : TranslationUnit} {k n : Nat} {e o : ExprId} {x : Expr}

theorem NestsWithin.operand (h : u.NestsWithin n e) (hx : u.expr e = .ok x)
    (ho : o ∈ x.operands) : ∃ m, n = m + 1 ∧ u.NestsWithin m o := by
  have hpos : 1 ≤ n := h 1 o (.operand hx ho (.refl o))
  refine ⟨n - 1, by omega, fun k p hk => ?_⟩
  have hle : k + 1 ≤ n := h (k + 1) p (.operand hx ho hk)
  omega

/-- Operands come first, so a path cannot be longer than there are expressions before its start. -/
theorem Closed.descends_le (hu : u.Closed) (h : u.Descends k e o) : o + k ≤ e := by
  induction h with
  | refl e => exact Nat.le_refl e
  | operand hx ho _ ih => exact Nat.lt_of_le_of_lt ih (hu.operands _ _ hx _ ho)

end TranslationUnit

end CheckedPointers
