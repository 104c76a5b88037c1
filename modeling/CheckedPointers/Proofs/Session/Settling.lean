import CheckedPointers.Analysis
import CheckedPointers.Proofs.Session.Repair

/-!
Solving and repair in turn. The solution that comes out is that of the session left behind, even
though the last repair records bounds after it was computed; and where the loop stops by itself,
further rounds do nothing.
-/
namespace CheckedPointers

open Op

namespace Session

variable {s t : Session} {sol : Solution}

/-- Bounds that the solution satisfies do not change it. -/
theorem Records.solve_eq (h : s.Records t) (hs : s.WellFormed)
    (hadheres : Adheres s.solver.solve s t) : t.solver.solve = s.solver.solve := by
  have hsolves : Solution.Solves s.solver.solve.category t.solver.constraints := by
    intro c hc
    rcases hadheres c hc with hold | hsat
    · exact hs.solver.solves c hold
    · exact hsat
  exact (hs.solver.solve_eq_of_solves (h.solver.sound hs.solver) h.size.symm
    (fun c hc => h.solver.mem hc) hsolves).symm

/-- Where solving and repair have come to rest: the solution is that of the session, definitions
and declarations agree under it, and another repair finds nothing to do. -/
structure AtRest (s : Session) (sol : Solution) : Prop where
  solution : sol = s.solver.solve
  agreed : s.Agreed sol
  repaired : (repair sol).Ends s false s

structure IsSettled (s : Session) (r : Settled) : Prop where
  solution : r.sol = s.solver.solve
  atRest : r.converged → s.AtRest r.sol

/-- Rounds end at rest, or at the bound; at least one is made if any may be. -/
theorem settleFrom_meets (n rounds : Nat) (hs : s.WellFormed) (hsol : sol = s.solver.solve) :
    Meets .records (settleFrom n rounds sol) s fun r t =>
      t.IsSettled r ∧ rounds ≤ r.rounds ∧ r.rounds ≤ rounds + n ∧ (0 < n → rounds < r.rounds) := by
  induction n generalizing s rounds sol with
  | zero =>
    exact Meets.pure ⟨⟨hsol, fun h => nomatch h⟩, Nat.le_refl _, Nat.le_refl _,
      fun h => absurd h (Nat.lt_irrefl 0)⟩
  | succ n ih =>
    refine Meets.bind (Meets.frame (repair_repairs sol hs))
      fun changed t _ ⟨hst, hrest, hagain⟩ => ?_
    have ht := hst.creates.wellFormed hs
    split
    · refine Meets.bind (P := fun sol' w => sol' = w.solver.solve ∧ w = t)
        (Meets.bind_get (Meets.pure ⟨rfl, rfl⟩)) fun sol' w _ ⟨hsol', hw⟩ => ?_
      subst hw
      refine (ih (rounds + 1) ht hsol').mono fun r z _ ⟨hr, hle, hle', _⟩ => ⟨hr, ?_, ?_, ?_⟩
      · omega
      · omega
      · omega
    · next hno =>
      rw [Bool.not_eq_true] at hno
      subst hno
      obtain ⟨hadheres, hagreed⟩ := hrest rfl
      have hsame : sol = t.solver.solve := by
        rw [hsol] at hadheres ⊢
        exact (hst.solve_eq hs hadheres).symm
      refine Meets.pure ⟨⟨hsame, fun _ => ⟨hsame, hst.agreed.2 hagreed, ?_⟩⟩, ?_, ?_, ?_⟩
      · exact hagain t (.refl t)
      all_goals dsimp only; omega

/-- Solving and repair end within the bound, after one round at least if it allows for one. -/
theorem settle_meets (bound : Nat) (hs : s.WellFormed) :
    Meets .records (settle bound) s fun r t =>
      t.IsSettled r ∧ r.rounds ≤ bound ∧ (0 < bound → 0 < r.rounds) := by
  refine Meets.bind (P := fun sol w => sol = w.solver.solve ∧ w = s)
    (Meets.bind_get (Meets.pure ⟨rfl, rfl⟩)) fun sol w _ ⟨hsol, hw⟩ => ?_
  subst hw
  refine (settleFrom_meets bound 0 hs hsol).mono fun r t _ ⟨hr, _, hle, hlt⟩ => ⟨hr, ?_, hlt⟩
  omega

def furtherRounds : Nat → Op (List (Solution × Bool))
  | 0 => return []
  | n + 1 => do
    let sol ← solve
    let changed ← repair sol
    return (sol, changed) :: (← furtherRounds n)

/-- At rest every further round finds the same solution, changes nothing and says so. -/
theorem AtRest.furtherRounds (h : s.AtRest sol) (n : Nat) :
    (furtherRounds n).Ends s (List.replicate n (sol, false)) s := by
  induction n with
  | zero => exact ends_pure.2 ⟨rfl, rfl⟩
  | succ n ih =>
    refine ends_bind.2 ⟨sol, s, ?_, ends_bind.2 ⟨false, s, h.repaired, ?_⟩⟩
    · exact ends_bind.2 ⟨s, s, ends_get.2 ⟨rfl, rfl⟩, ends_pure.2 ⟨h.solution.symm, rfl⟩⟩
    · exact ends_bind.2 ⟨_, s, ih, ends_pure.2 ⟨rfl, rfl⟩⟩

end Session

end CheckedPointers
