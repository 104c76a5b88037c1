import CheckedPointers.Proofs.Analysis.Phases

/-!
What an analysis returns is the solution of the session that it leaves behind, and if it says that
it converged, nothing is left to do.
-/
namespace CheckedPointers

open Op

namespace Session

/-- The returned solution is the least one of all constraints recorded, those of the last repair
included. The rounds stay within the bound that the options give. After convergence any number of
further rounds finds the same solution and leaves the session alone; and what was assigned to the
program is what would be assigned to it again. -/
theorem analyse_rests {units : List TranslationUnit} {options : Options} {outcome : Outcome}
    {s : Session} (h : (analyse units).Ends (.new options) outcome s) :
    outcome.settled.sol = s.solver.solve ∧
    Solution.IsLeast outcome.settled.sol.category s.solver.constraints ∧
    (1 ≤ outcome.settled.rounds ∧ outcome.settled.rounds ≤ max options.maxRepairRounds 1) ∧
    (outcome.settled.converged → ∀ n,
      (furtherRounds n).Ends s (List.replicate n (outcome.settled.sol, false)) s) ∧
    (assignment s.solver.solve).Ends s outcome.assignment s := by
  obtain ⟨p⟩ := exists_phases h
  have hsolution := p.isSettled.solution
  have hrounds := ((settle_meets _ p.wellFormed_linked).of_ends p.settle).2.2
  rw [p.options_linked] at hrounds
  refine ⟨hsolution, ?_, ⟨hrounds.2 (by omega), hrounds.1⟩, fun hconv n => ?_, ?_⟩
  · rw [hsolution]
    exact p.wellFormed.solver.isLeast
  · exact (p.isSettled.atRest hconv).furtherRounds n
  · rw [← hsolution]
    exact p.assignment

/-- A definition that subscripts its parameter, and a prototype that repair has to follow it. -/
def subscriptedParameter : TranslationUnit :=
  let ptr : CType := .pointer .int
  let signature : Signature := ⟨ptr, [ptr], false, true⟩
  { id := 0
    file := "a.c"
    decls := #[
      ⟨"p", ⟨"a.c", 1, 1⟩, false, .param ptr (some 1) none⟩,
      ⟨"f", ⟨"a.c", 1, 5⟩, false, .function signature [0] true none⟩,
      ⟨"p", ⟨"a.c", 3, 1⟩, false, .param ptr (some 3) none⟩,
      ⟨"f", ⟨"a.c", 3, 5⟩, false, .function signature [2] true (some [.expr 2])⟩]
    exprs := #[.declRef 2, .intLiteral 3, .subscript 0 1]
    topLevel := [1, 3] }

/-- The loop takes two rounds, and three more change nothing. -/
theorem analyse_rests_subscriptedParameter :
    ∃ outcome s, (analyse [subscriptedParameter]).Ends (.new .default) outcome s ∧
      outcome.settled.sol = s.solver.solve ∧
      outcome.settled.rounds = 2 ∧ outcome.settled.converged = true ∧
      (furtherRounds 3).Ends s (List.replicate 3 (outcome.settled.sol, false)) s := by
  obtain ⟨outcome, s, h, hsettled⟩ := exists_ends (x := analyse [subscriptedParameter])
    (s := .new .default) (g := fun o _ => (o.settled.rounds, o.settled.converged))
    (b := (2, true)) (by decide +kernel)
  obtain ⟨hrounds, hconv⟩ := Prod.mk.inj hsettled
  have hrest := analyse_rests h
  exact ⟨outcome, s, h, hrest.1, hrounds, hconv, hrest.2.2.2.1 hconv 3⟩

end Session

end CheckedPointers
