import CheckedPointers.Proofs.Analysis.Rest
import CheckedPointers.Proofs.Session.Requests
import CheckedPointers.Proofs.Session.Rounds

/-!
Repair comes to rest. Every round that asks for another one raises an atom for good, so no session
allows for more of them than three for each of its atoms, and an analysis that may make one more
converges.
-/
namespace CheckedPointers

open Op

namespace Session

variable {s t : Session} {options : Options} {units : List TranslationUnit} {outcome : Outcome}

/-- Everything up to solving and repair. -/
def linkUnits (units : List TranslationUnit) : Op PUnit := do
  indexUnits units
  discard (flowUnits units)
  discard link

namespace Phases

variable (p : Phases units s outcome t)

include p

theorem ends_linkUnits : (linkUnits units).Ends s ⟨⟩ p.linked :=
  ends_bind.2 ⟨⟨⟩, p.indexed, p.index, ends_bind.2 ⟨⟨⟩, p.followed, ends_discard.2 ⟨_, p.flow⟩,
    ends_discard.2 ⟨_, p.link⟩⟩⟩

theorem extends_linked (hs : s.WellFormed) : s.Extends p.linked := by
  have hindexed : s.Indexes p.indexed := indexes_of_indexUnits p.index hs
  have hfollowed := follows_of_flowUnits p.flow (hindexed.wellFormed hs)
  have hlinked : p.followed.Records p.linked := ((link_meets p.followed).of_ends p.link).1
  exact (hindexed.toExtends.trans hfollowed.toExtends).trans hlinked.creates.toExtends

/-- An analysis that stops unconverged has made as many rounds as it may, and each of them has
asked for another one. -/
theorem rounds_of_unconverged (hs : s.WellFormed) (h : outcome.settled.converged = false) :
    outcome.settled.rounds = max s.options.maxRepairRounds 1 ∧
      p.linked.Rounds (max s.options.maxRepairRounds 1) t := by
  obtain ⟨sol, w, hsolve, hsettle⟩ := ends_bind.1 p.settle
  obtain ⟨rfl, rfl⟩ := ends_solve.1 hsolve
  obtain ⟨k, w, hrounds, hend⟩ := settleFrom_rounds hsettle
  rw [(p.extends_linked hs).options] at hend
  rcases hend with ⟨hconv, -⟩ | ⟨-, rfl, he, rfl⟩
  · rw [h] at hconv
    cases hconv
  · rw [Nat.zero_add] at he
    exact ⟨he, hrounds⟩

end Phases

/-- From every session that can come about, solving and repair in turn stop after at most three
rounds for each atom and one more. Every round leaves the atoms and the variables alone, and one
that asks for another raises some atom in the next solution and lowers none. An analysis that may
make as many rounds converges, whatever was asked of the session before. -/
theorem Reachable.repair_terminates (h : Reachable options s) :
    (∃ k t u, s.Rounds k t ∧ (repair t.solver.solve).Ends t false u) ∧
    (∀ k t, s.Rounds k t → k + 1 ≤ 3 * s.solver.cells.size + 1 ∧
      ∀ b u, (repair t.solver.solve).Ends t b u →
        u.solver.cells.size = s.solver.cells.size ∧ u.arena = s.arena ∧
          (b = true → t.solver.solve.RisesTo u.solver.solve)) ∧
    ∀ units outcome t, (analyse units).Ends s outcome t →
      3 * t.solver.cells.size + 1 ≤ options.maxRepairRounds →
        outcome.settled.converged = true := by
  have hs := h.wellFormed
  refine ⟨hs.exists_rounds, fun k t hk => ⟨Nat.succ_le_succ (hk.le hs), fun b u hu => ?_⟩,
    fun units outcome t hends hbound => ?_⟩
  · have hst := hk.records hs
    obtain ⟨b', u', hu', htu, hrises⟩ := (hst.creates.wellFormed hs).repair_ends
    obtain ⟨rfl, rfl⟩ := hu.unique hu'
    have hsu := hst.trans htu
    exact ⟨hsu.size, hsu.arena, hrises⟩
  · obtain ⟨p⟩ := exists_phases hends
    by_contra hconv
    have hrounds := (p.rounds_of_unconverged hs (by simpa using hconv)).2
    have hlinked := (p.extends_linked hs).wellFormed hs
    have hle := hrounds.le hlinked
    rw [← (hrounds.records hlinked).size, h.options_eq] at hle
    omega

/-- Up to linking nothing has told the prototype that the definition subscripts its parameter; one
round of repair does. -/
theorem repair_terminates_subscriptedParameter :
    ∃ s t u, Reachable .default s ∧ s.solver.cells.size = 4 ∧
      (repair s.solver.solve).Ends s true t ∧ s.solver.solve.RisesTo t.solver.solve ∧
      (repair t.solver.solve).Ends t false u ∧ u.arena = s.arena ∧
      ∃ outcome w, (analyse [subscriptedParameter]).Ends (.new .default) outcome w ∧
        outcome.settled.converged = true := by
  let rs : List Request := [.enter subscriptedParameter, .giveVariables subscriptedParameter 1,
    .giveVariables subscriptedParameter 3, .exit, .enter subscriptedParameter,
    .flow subscriptedParameter, .exit, .link]
  let look : Op (Bool × Bool × Nat) := do
    requests rs
    let first ← repair (← solve)
    let second ← repair (← solve)
    return (first, second, (← get).solver.cells.size)
  obtain ⟨found, u, hends, hfound⟩ := exists_ends (x := look) (s := .new .default)
    (g := fun found _ => found) (b := (true, false, 4)) (by decide +kernel)
  obtain ⟨_, s, hrequests, hends⟩ := ends_bind.1 hends
  obtain ⟨sol, s', hsolve, hends⟩ := ends_bind.1 hends
  obtain ⟨first, t, hfirst, hends⟩ := ends_bind.1 hends
  obtain ⟨sol', t', hsolve', hends⟩ := ends_bind.1 hends
  obtain ⟨second, u', hsecond, hends⟩ := ends_bind.1 hends
  obtain ⟨_, _, hget, hends⟩ := ends_bind.1 hends
  obtain ⟨rfl, rfl⟩ := ends_solve.1 hsolve
  obtain ⟨rfl, rfl⟩ := ends_solve.1 hsolve'
  obtain ⟨rfl, rfl⟩ := ends_get.1 hget
  obtain ⟨rfl, rfl⟩ := ends_pure.1 hends
  obtain ⟨rfl, rfl, hsize⟩ : first = true ∧ second = false ∧ u'.solver.cells.size = 4 := by
    simpa using hfound
  have hs : Reachable .default s := Reachable.new.requests hrequests
  obtain ⟨-, hrounds, -⟩ := hs.repair_terminates
  obtain ⟨-, -, hrises⟩ := (hrounds 0 s (.none s)).2 true t hfirst
  obtain ⟨hatoms, harena, -⟩ := (hrounds 1 t (.more hfirst (.none t))).2 false u' hsecond
  obtain ⟨outcome, w, hanalyse, hw⟩ := exists_ends (x := analyse [subscriptedParameter])
    (s := .new .default) (g := fun _ w => w.solver.cells.size) (b := 4) (by decide +kernel)
  have hconverged := Reachable.new.repair_terminates.2.2 _ outcome w hanalyse (by rw [hw]; decide)
  exact ⟨s, t, u', hs, hatoms ▸ hsize, hfirst, hrises rfl, hsecond, harena, outcome, w, hanalyse,
    hconverged⟩

end Session

end CheckedPointers
