import CheckedPointers.Proofs.Session.Hops
import CheckedPointers.Proofs.Session.Rounds

/-!
How fast categories spread. Equated atoms solve alike at once, but from a definition to a
declaration a category takes a round. So what is far away from every bound takes as many rounds to
hear of it.
-/
namespace CheckedPointers

open Op

namespace Session

variable {s t : Session} {top : Category} {distance : Atom → Nat} {i k : Nat}

/-- The most that `k` rounds can have raised an atom to. -/
def withinReach (top : Category) (distance : Atom → Nat) (k : Nat) (a : Atom) : Category :=
  if distance a ≤ k then top else .ptr

/-- After `k` rounds nothing is asked of atoms that are further away, and a hop leads at most one
further. -/
structure Spreads (s : Session) (top : Category) (distance : Atom → Nat) (k : Nat) : Prop where
  solves : ∀ n, k ≤ n → Solution.Solves (withinReach top distance n) s.solver.constraints
  hop : ∀ sol p q, s.Hop sol p q → ∀ a ∈ s.arena.levels p, ∀ b ∈ s.arena.levels q,
    distance b ≤ distance a + 1

/-- At first bounds, none of them above `top`, are at distance zero and equated atoms at one
distance. -/
theorem Spreads.start
    (hbound : ∀ a c, .atLeast a c ∈ s.solver.constraints → c ≤ top ∧ distance a = 0)
    (hequal : ∀ a b, .equal a b ∈ s.solver.constraints → distance a = distance b)
    (hhop : ∀ sol p q, s.Hop sol p q → ∀ a ∈ s.arena.levels p, ∀ b ∈ s.arena.levels q,
      distance b ≤ distance a + 1) : s.Spreads top distance 0 := by
  refine ⟨fun n _ c hc => ?_, hhop⟩
  cases c with
  | equal a b =>
    show withinReach top distance n a = withinReach top distance n b
    rw [withinReach, withinReach, hequal a b hc]
  | atLeast a c =>
    obtain ⟨hle, hzero⟩ := hbound a c hc
    show c ≤ withinReach top distance n a
    rw [withinReach, if_pos (by omega)]
    exact hle

theorem Spreads.category_le (h : s.Spreads top distance k) (hs : s.WellFormed) (a : Atom) :
    s.solver.solve.category a ≤ withinReach top distance k a :=
  hs.solver.isLeast.2 _ (h.solves k (Nat.le_refl k)) a

/-- A round reaches one further. -/
theorem Spreads.repair {b : Bool} (h : s.Spreads top distance k) (hs : s.WellFormed)
    (hround : (repair s.solver.solve).Ends s b t) : t.Spreads top distance (k + 1) := by
  have hst : s.Records t := ((repair_repairs _ hs).of_ends hround).1
  constructor
  · intro n hn
    apply solves_of_repair hround (h.solves n (by omega))
    intro p q hpq a ha b hb
    have hstep := h.hop _ p q hpq a ha b hb
    apply Category.le_trans (h.category_le hs a)
    by_cases hreach : distance a ≤ k
    · rw [withinReach, withinReach, if_pos hreach, if_pos (by omega)]
      exact Category.le_refl top
    · rw [withinReach, if_neg hreach]
      exact Category.ptr_le _
  · intro sol p q hpq
    rw [hst.arena]
    exact h.hop sol p q (hst.hop.1 hpq)

/-- After each round nothing is asked of atoms one hop further away. -/
theorem Rounds.spreads (h : s.Rounds k t) (hs : s.WellFormed) (hi : s.Spreads top distance i) :
    t.Spreads top distance (i + k) := by
  induction h generalizing i with
  | none s => exact hi
  | more hround _ ih =>
    have hst := ((repair_repairs _ hs).of_ends hround).1
    have hrest := ih (Records.creates hst |>.wellFormed hs) (hi.repair hs hround)
    rwa [Nat.add_assoc, Nat.add_comm 1] at hrest

end Session

end CheckedPointers
