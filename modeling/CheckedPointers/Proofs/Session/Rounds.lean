import CheckedPointers.Proofs.Session.Settling
import Mathlib.Algebra.Order.BigOperators.Group.Finset

/-!
How often repair can ask for another round. It ends in every session, and where it says that
something was raised a bound above the category of some atom is on record: the next solution is
higher there and lower nowhere. As a solution is only so high, such rounds come to an end.
-/
namespace CheckedPointers

open Op

namespace Solution

/-- The steps above the most safe category, of all atoms together. -/
def height (sol : Solution) : Nat := ∑ a ∈ Finset.range sol.values.size, (sol.category a).rank

/-- The next solution has the same atoms; none is lower there, and some atom is higher. -/
structure RisesTo (sol sol' : Solution) : Prop where
  size : sol'.values.size = sol.values.size
  le : ∀ a, sol.category a ≤ sol'.category a
  lt : ∃ a, a < sol.values.size ∧ sol.category a < sol'.category a

theorem height_le (sol : Solution) : sol.height ≤ 3 * sol.values.size := by
  have hrank : ∀ a ∈ Finset.range sol.values.size, (sol.category a).rank ≤ 3 :=
    fun a _ => Category.le_wild (sol.category a)
  have hsum := Finset.sum_le_card_nsmul _ _ 3 hrank
  rw [Finset.card_range, Nat.nsmul_eq_mul, Nat.mul_comm] at hsum
  exact hsum

theorem RisesTo.height_lt {sol sol' : Solution} (h : sol.RisesTo sol') :
    sol.height < sol'.height := by
  obtain ⟨a, ha, hlt⟩ := h.lt
  unfold height
  rw [h.size]
  exact Finset.sum_lt_sum (fun b _ => h.le b) ⟨a, Finset.mem_range.2 ha, hlt⟩

end Solution

namespace Session

variable {s t u : Session} {sol : Solution} {k : Nat}

/-! ## One round -/

def Exceeds (sol : Solution) (s : Session) : Prop :=
  ∃ a c, .atLeast a c ∈ s.solver.constraints ∧ sol.category a < c

theorem Exceeds.records (h : Exceeds sol s) (hst : s.Records t) : Exceeds sol t := by
  obtain ⟨a, c, hmem, hlt⟩ := h
  exact ⟨a, c, hst.solver.mem hmem, hlt⟩

/-- From `s` the repair ends and only records. If it says that something was raised, a bound above
the solution is on record. -/
def Answers (sol : Solution) (x : Op Bool) (s : Session) : Prop :=
  ∃ b t, x.Ends s b t ∧ s.Records t ∧ (b = true → Exceeds sol t)

theorem Answers.nothing : Answers sol (return false) s :=
  ⟨false, s, ends_pure.2 ⟨rfl, rfl⟩, .refl s, fun h => nomatch h⟩

/-- Two repairs, one after the other. -/
theorem Answers.both {x y : Op Bool} (hx : Answers sol x s)
    (hy : ∀ t, s.Records t → Answers sol y t) :
    Answers sol (do
      let first ← x
      let others ← y
      return first || others) s := by
  obtain ⟨b, t, hxb, hst, hb⟩ := hx
  obtain ⟨c, w, hyc, htw, hc⟩ := hy t hst
  refine ⟨b || c, w, ends_bind.2 ⟨b, t, hxb, ends_bind.2 ⟨c, w, hyc, ends_pure.2 ⟨rfl, rfl⟩⟩⟩,
    hst.trans htw, fun h => ?_⟩
  rcases Bool.or_eq_true_iff.1 h with h | h
  · exact (hb h).records htw
  · exact hc h

theorem Answers.bind_get {f : Session → Op Bool} (h : Answers sol (f s) s) :
    Answers sol (get >>= f) s := by
  obtain ⟨b, t, hb, h⟩ := h
  exact ⟨b, t, ends_bind.2 ⟨s, s, ends_get.2 ⟨rfl, rfl⟩, hb⟩, h⟩

/-- Atoms that are there can be bounded, and then the bounds are on record. -/
theorem raiseAtoms_ends (atoms : List Atom) (c : Category)
    (h : ∀ a ∈ atoms, a < s.solver.cells.size) :
    ∃ t, (atoms.forM fun a => discard (addConstraint (.atLeast a c))).Ends s ⟨⟩ t ∧
      s.Records t ∧ ∀ a ∈ atoms, .atLeast a c ∈ t.solver.constraints := by
  induction atoms generalizing s with
  | nil => exact ⟨s, ends_pure.2 ⟨rfl, rfl⟩, .refl s, fun _ h => nomatch h⟩
  | cons a rest ih =>
    obtain ⟨b, t, hb⟩ := addConstraint_ends (c := .atLeast a c) (h a List.mem_cons_self)
    obtain ⟨hst, ht, -⟩ := known_of_addConstraint hb
    obtain ⟨w, hw, htw, hall⟩ := ih (s := t) fun x hx =>
      hst.size ▸ h x (List.mem_cons_of_mem a hx)
    have ha : .atLeast a c ∈ t.solver.constraints := by
      rw [ht, ConstraintSystem.mem_add_constraints]
      exact .inr ⟨rfl, Bool.false_ne_true⟩
    refine ⟨w, ends_bind.2 ⟨⟨⟩, t, ends_discard.2 ⟨b, hb⟩, hw⟩, hst.trans htw, fun x hx => ?_⟩
    rcases List.mem_cons.1 hx with rfl | hx
    · exact htw.solver.mem ha
    · exact hall x hx

/-- If raising says that a level solved below the bound, that bound exceeds the solution. -/
theorem raise_answers (v : VarId) (c : Category) (hs : s.WellFormed) :
    Answers sol (raise sol v c) s := by
  apply Answers.bind_get
  split
  · next p hp =>
    obtain ⟨t, ht, hst, hall⟩ := raiseAtoms_ends p.atoms c fun a ha => hs.arena.atom_lt hp ha
    refine ⟨_, t, ends_bind.2 ⟨⟨⟩, t, ht, ends_pure.2 ⟨rfl, rfl⟩⟩, hst, fun h => ?_⟩
    obtain ⟨a, ha, hlt⟩ := List.any_eq_true.1 h
    exact ⟨a, c, hall a ha, of_decide_eq_true hlt⟩
  · exact .nothing

/-- If repair says that it raised a return, some bound exceeds the solution. -/
theorem repairReturn_answers (definition declaration : VarId) (hs : s.WellFormed) :
    Answers sol (repairReturn sol definition declaration) s := by
  apply Answers.bind_get
  dsimp only
  split
  · exact raise_answers declaration .leastSafe hs
  · split
    · exact .nothing
    · split
      · split
        · exact raise_answers definition _ hs
        · exact .nothing
      · exact .nothing

theorem repairParam_answers (definition declaration : VarId) (hs : s.WellFormed) :
    Answers sol (repairParam sol definition declaration) s := by
  apply Answers.bind_get
  dsimp only
  split
  · exact .nothing
  · split
    · split
      · exact raise_answers declaration _ hs
      · exact .nothing
    · exact .nothing

theorem repairSlot_answers {repair : VarId → VarId → Op Bool} (x y : VarSet)
    (h : ∀ a b, Answers sol (repair a b) s) : Answers sol (repairSlot repair sol x y) s := by
  apply Answers.bind_get
  dsimp only
  split
  · exact h _ _
  · exact .nothing

/-- If repair says that it raised some parameter, some bound exceeds the solution. -/
theorem repairParams_answers (slots : List (VarSet × VarSet)) (hs : s.WellFormed) :
    Answers sol (repairParams sol slots) s := by
  induction slots generalizing s with
  | nil => exact .nothing
  | cons e rest ih =>
    have hslot : Answers sol (repairSlot (repairParam sol) sol e.1 e.2) s :=
      repairSlot_answers e.1 e.2 fun a b => repairParam_answers a b hs
    exact hslot.both fun t hst => ih (hst.creates.wellFormed hs)

/-- If repair says that it raised something of a declaration, some bound exceeds the solution. -/
theorem repairDeclaration_answers (definition declaration : VarId) (hs : s.WellFormed) :
    Answers sol (repairDeclaration sol definition declaration) s := by
  apply Answers.bind_get
  dsimp only
  split
  · next f g _ _ =>
    have hreturns : Answers sol (repairSlot (repairReturn sol) sol f.returns g.returns) s :=
      repairSlot_answers f.returns g.returns fun a b => repairReturn_answers a b hs
    by_cases hlen : f.params.length = g.params.length
    · simp only [hlen, if_true]
      exact hreturns.both fun t hst => repairParams_answers _ (hst.creates.wellFormed hs)
    · simp only [hlen, if_false]
      simpa using hreturns
  · exact .nothing

theorem repairAll_answers (definition : VarId) (declarations : List VarId) (hs : s.WellFormed) :
    Answers sol (repairAll sol definition declarations) s := by
  induction declarations generalizing s with
  | nil => exact .nothing
  | cons d rest ih =>
    have hrest : ∀ t, s.Records t → Answers sol (repairAll sol definition rest) t :=
      fun t hst => ih (hst.creates.wellFormed hs)
    rw [repairAll]
    split
    · exact Answers.nothing.both hrest
    · exact (repairDeclaration_answers definition d hs).both hrest

/-- If a whole round says so, some bound exceeds the solution. -/
theorem repairKeys_answers (keys : List (FunctionKey × VarSet)) (hs : s.WellFormed) :
    Answers sol (repairKeys sol keys) s := by
  induction keys generalizing s with
  | nil => exact .nothing
  | cons e rest ih =>
    obtain ⟨key, definitions⟩ := e
    have hrest : ∀ t, s.Records t → Answers sol (repairKeys sol rest) t :=
      fun t hst => ih (hst.creates.wellFormed hs)
    apply Answers.bind_get
    dsimp only
    split
    · next d _ => exact (repairAll_answers d (s.declarationsPaired key d) hs).both hrest
    · exact Answers.nothing.both hrest

theorem repair_answers (sol : Solution) (hs : s.WellFormed) : Answers sol (repair sol) s :=
  Answers.bind_get (repairKeys_answers s.pairing.definitions hs)

/-- Where a recorded bound is above the solution, the next one rises. -/
theorem Records.risesTo (h : s.Records t) (hs : s.WellFormed)
    (hexceeds : Exceeds s.solver.solve t) : s.solver.solve.RisesTo t.solver.solve := by
  obtain ⟨a, c, hmem, hlt⟩ := hexceeds
  have ht := h.solver.sound hs.solver
  have hknown : a < t.solver.cells.size := ht.known _ hmem
  have hle : c ≤ t.solver.solve.category a := ht.solves _ hmem
  refine ⟨by simp [h.size], hs.solver.solve_le ht fun _ => h.solver.mem, a, ?_, ?_⟩
  · rwa [ConstraintSystem.solve_values_size, ← h.size]
  · exact Nat.lt_of_lt_of_le hlt hle

/-- A round of solving and repair ends; if it asks for another one, the next solution rises. -/
theorem WellFormed.repair_ends (hs : s.WellFormed) :
    ∃ b t, (repair s.solver.solve).Ends s b t ∧ s.Records t ∧
      (b = true → s.solver.solve.RisesTo t.solver.solve) := by
  obtain ⟨b, t, hb, hst, h⟩ := repair_answers s.solver.solve hs
  exact ⟨b, t, hb, hst, fun htrue => hst.risesTo hs (h htrue)⟩

/-! ## Many rounds -/

theorem ends_solve : solve.Ends s sol t ↔ s.solver.solve = sol ∧ s = t := by
  rw [solve, bind_pure_comp, ends_map]
  simp only [ends_get]
  grind

/-- From `s` so many rounds of solving and repair, each of which asks for another one. -/
inductive Rounds : Session → Nat → Session → Prop where
  | none (s : Session) : Rounds s 0 s
  | more {s t u : Session} {k : Nat} : (repair s.solver.solve).Ends s true t → Rounds t k u →
      Rounds s (k + 1) u

theorem Rounds.records (h : s.Rounds k t) (hs : s.WellFormed) : s.Records t := by
  induction h with
  | none s => exact .refl s
  | more hround _ ih =>
    have hst := ((repair_repairs _ hs).of_ends hround).1
    exact Records.trans hst (ih (Records.creates hst |>.wellFormed hs))

/-- Each round costs some of the height that is left. -/
theorem Rounds.height (h : s.Rounds k t) (hs : s.WellFormed) :
    s.solver.solve.height + k ≤ t.solver.solve.height := by
  induction h with
  | none s => exact Nat.le_refl _
  | more hround _ ih =>
    obtain ⟨b, w, hb, hst, hrises⟩ := hs.repair_ends
    obtain ⟨rfl, rfl⟩ := hb.unique hround
    have hlt := (hrises rfl).height_lt
    have hrest := ih (hst.creates.wellFormed hs)
    omega

theorem Rounds.le (h : s.Rounds k t) (hs : s.WellFormed) : k ≤ 3 * s.solver.cells.size := by
  have hheight := h.height hs
  have hle := t.solver.solve.height_le
  rw [ConstraintSystem.solve_values_size, (h.records hs).size] at hle
  omega

/-- In the end a round asks for no other one. -/
theorem WellFormed.exists_rounds (hs : s.WellFormed) :
    ∃ k t u, s.Rounds k t ∧ (repair t.solver.solve).Ends t false u := by
  -- the induction is on the height that is left above the solution
  generalize hn : 3 * s.solver.cells.size - s.solver.solve.height = n
  induction n using Nat.strong_induction_on generalizing s with
  | _ n ih =>
    obtain ⟨b, t, hb, hst, hrises⟩ := hs.repair_ends
    cases b with
    | false => exact ⟨0, s, t, .none s, hb⟩
    | true =>
      have hlt := (hrises rfl).height_lt
      have hle := t.solver.solve.height_le
      rw [ConstraintSystem.solve_values_size, hst.size] at hle
      have hless : 3 * t.solver.cells.size - t.solver.solve.height < n := by
        rw [hst.size]
        omega
      obtain ⟨k, w, u, hk, hu⟩ := ih _ hless (hst.creates.wellFormed hs) rfl
      exact ⟨k + 1, w, u, .more hb hk, hu⟩

/-- The loop makes rounds until one asks for no other one, or until there are as many as it may
make. -/
theorem settleFrom_rounds {n rounds : Nat} {r : Settled}
    (h : (settleFrom n rounds s.solver.solve).Ends s r t) :
    ∃ k w, s.Rounds k w ∧
      ((r.converged = true ∧ k < n ∧ r.rounds = rounds + k + 1 ∧
          (repair w.solver.solve).Ends w false t) ∨
        (r.converged = false ∧ k = n ∧ r.rounds = rounds + n ∧ w = t)) := by
  induction n generalizing s rounds with
  | zero =>
    obtain ⟨rfl, rfl⟩ := ends_pure.1 h
    exact ⟨0, s, .none s, .inr ⟨rfl, rfl, rfl, rfl⟩⟩
  | succ n ih =>
    obtain ⟨b, w, hb, h⟩ := ends_bind.1 h
    cases b with
    | false =>
      obtain ⟨rfl, rfl⟩ := ends_pure.1 h
      exact ⟨0, s, .none s, .inl ⟨rfl, Nat.succ_pos n, rfl, hb⟩⟩
    | true =>
      obtain ⟨sol, w', hsolve, h⟩ := ends_bind.1 h
      obtain ⟨rfl, rfl⟩ := ends_solve.1 hsolve
      obtain ⟨k, z, hk, hend⟩ := ih h
      refine ⟨k + 1, z, .more hb hk, ?_⟩
      rcases hend with ⟨hr, hlt, hrounds, hz⟩ | ⟨hr, he, hrounds, hz⟩
      · exact .inl ⟨hr, by omega, by omega, hz⟩
      · exact .inr ⟨hr, by omega, by omega, hz⟩

end Session

end CheckedPointers
