import CheckedPointers.Proofs.Analysis.Agreement
import CheckedPointers.Proofs.Session.Keeping
import CheckedPointers.Proofs.Session.Rounds

/-!
What one round of repair does, no more and no less. It bounds levels of returns and parameters of
the pairs that it reconciles, it asks for another round exactly if the solution rises, and if it
does not ask then every pair agrees.
-/
namespace CheckedPointers

open Op

namespace Arena

variable {arena : Arena} {sol : Solution} {v : VarId} {k : Category}

/-- The least safe category of a variable without wild levels is not the least safe of all. -/
theorem ne_wild_of_leastSafeLevel? (hk : arena.leastSafeLevel? sol v = some k)
    (hwild : ¬ arena.hasWildLevel sol v) : k ≠ .wild := by
  rintro rfl
  obtain ⟨hreached, -⟩ := Solution.leastSafe_eq_some hk
  exact hwild (hasWildLevel_iff.2 hreached)

end Arena

namespace Session

variable {s t : Session} {sol : Solution} {definition declaration p q : VarId}
  {options : Options}

/-! ## What is recorded -/

/-- What a round may record of a pair: bounds on a level of a return or of a parameter, and none
that makes something wild but the declaration's return. -/
inductive Mends (arena : Arena) (definition declaration : VarId) (c : Constraint) : Prop where
  | returned {g : FunctionVariable} {q : VarId} (hg : arena.function? declaration = some g)
      (hq : q ∈ g.returns) (h : LevelBound arena q .wild c)
  | promised {f : FunctionVariable} {p : VarId} {k : Category}
      (hf : arena.function? definition = some f) (hp : p ∈ f.returns) (hk : k ≠ .wild)
      (h : LevelBound arena p k c)
  | required {g : FunctionVariable} {q : VarId} {k : Category} (i : Nat)
      (hg : arena.function? declaration = some g) (hq : q ∈ (Position.param i).slot g)
      (hk : k ≠ .wild) (h : LevelBound arena q k c)

/-- Repair of returns makes nothing wild but the declaration's return. -/
theorem repairReturn_bounds (p q : VarId) (s : Session) :
    Adds (fun c => LevelBound s.arena q .wild c ∨ ∃ k, k ≠ .wild ∧ LevelBound s.arena p k c)
      (repairReturn sol p q) s := by
  apply Adds.bind_get
  dsimp only
  split
  · exact (raise_adds q .leastSafe s).mono fun c hc => .inl hc
  · split
    · exact .pure
    · next hwild =>
      split
      · next k k' _ hk' =>
        split
        · have hne := Arena.ne_wild_of_leastSafeLevel? hk' hwild
          exact (raise_adds p k' s).mono fun c hc => .inr ⟨k', hne, hc⟩
        · exact .pure
      · exact .pure

/-- Repair of parameters bounds the declaration's parameter alone, and makes nothing wild. -/
theorem repairParam_bounds (p q : VarId) (s : Session) :
    Adds (fun c => ∃ k, k ≠ .wild ∧ LevelBound s.arena q k c) (repairParam sol p q) s := by
  apply Adds.bind_get
  dsimp only
  split
  · exact .pure
  · next hwild =>
    split
    · next k k' hk _ =>
      split
      · have hne := Arena.ne_wild_of_leastSafeLevel? hk fun h => hwild (by simp [h])
        exact (raise_adds q k s).mono fun c hc => ⟨k, hne, hc⟩
      · exact .pure
    · exact .pure

theorem exists_position {f g : FunctionVariable} {e : VarSet × VarSet}
    (he : e ∈ f.params.zip g.params) (hq : q ∈ e.2) : ∃ i, q ∈ (Position.param i).slot g := by
  obtain ⟨i, hi⟩ := List.mem_iff_getElem?.1 (List.of_mem_zip he).2
  exact ⟨i, by simpa [Position.slot, hi] using hq⟩

theorem repairDeclaration_mends (definition declaration : VarId) (s : Session) :
    Adds (Mends s.arena definition declaration)
      (repairDeclaration sol definition declaration) s := by
  apply repairDeclaration_adds_of
  · intro f g hf hg p hp q hq
    apply (repairReturn_bounds p q s).mono
    rintro c (hc | ⟨k, hk, hc⟩)
    · exact .returned hg hq hc
    · exact .promised hf hp hk hc
  · intro f g hf hg e he p hp q hq t hst
    apply (repairParam_bounds p q t).mono
    rintro c ⟨k, hk, hc⟩
    obtain ⟨i, hi⟩ := exists_position he hq
    exact .required i hg hi hk (hst.arena ▸ hc)

theorem repair_mends (sol : Solution) (s : Session) :
    Adds (fun c => ∃ definition declaration, s.Pairs sol definition declaration ∧
      Mends s.arena definition declaration c) (repair sol) s := by
  apply repair_adds_of
  intro definition declaration hpairs t hst
  apply (repairDeclaration_mends definition declaration t).mono
  intro c hc
  exact ⟨definition, declaration, hpairs, hst.arena ▸ hc⟩

/-! ## What holds afterwards -/

/-- The two functions of a pair agree, return with return and each parameter with the one at its
position. -/
def InAccord (s : Session) (sol : Solution) (definition declaration : VarId) : Prop :=
  ∃ f g, s.arena.function? definition = some f ∧ s.arena.function? declaration = some g ∧
    (∀ p ∈ f.returns, ∀ q ∈ g.returns, s.arena.ReturnsAgree sol p q) ∧
      (f.params.length = g.params.length → ∀ i, ∀ p ∈ (Position.param i).slot f,
        ∀ q ∈ (Position.param i).slot g, s.arena.ParamsAgree sol p q)

theorem Pairs.registered (h : s.Pairs sol definition declaration) : s.Registered definition := by
  obtain ⟨e, he, hleast, -⟩ := h
  exact ⟨e, he, Arena.mem_of_leastSafe? hleast⟩

/-- A pair consists of two functions. -/
theorem Reachable.pairs (h : Reachable options s) (hpairs : s.Pairs sol definition declaration) :
    declaration ≠ definition ∧ s.arena.isFunction definition ∧ s.arena.isFunction declaration := by
  have hregistered := hpairs.registered
  obtain ⟨e, he, hleast, hmem⟩ := hpairs
  obtain ⟨hne, hfun⟩ := h.paired hregistered hmem
  exact ⟨hne, hregistered.isFunction h.wellFormed, hfun⟩

/-- A pair on which repair has nothing left to do is in accord. -/
theorem Reachable.inAccord (h : Reachable options s) (hagreed : s.Agreed sol)
    (hpairs : s.Pairs sol definition declaration) : s.InAccord sol definition declaration := by
  obtain ⟨hne, hdef, hdecl⟩ := h.pairs hpairs
  obtain ⟨f, hf⟩ := Arena.isFunction_iff.1 hdef
  obtain ⟨g, hg⟩ := Arena.isFunction_iff.1 hdecl
  have hagree := hpairs.agree hne hagreed
  refine ⟨f, g, hf, hg, ?_, ?_⟩
  · intro p hp q hq
    exact agree_returns h.wellFormed hagree hf hg hp hq
  · intro hlen i p hp q hq
    exact agree_param h.wellFormed hagree hf hg hlen hp hq

/-- One round of repair is exact. It ends, and asks for another round if and only if the solution
changes, in which case it rises; it records nothing but bounds that mend a pair; and if it asks for
nothing then every pair is in accord. -/
theorem Reachable.repair_exact (h : Reachable options s) :
    ∃ changed t, (repair s.solver.solve).Ends s changed t ∧
      (changed = true ↔ t.solver.solve ≠ s.solver.solve) ∧
      (changed = true → s.solver.solve.RisesTo t.solver.solve) ∧
      (∀ c ∈ t.solver.constraints, c ∈ s.solver.constraints ∨
        ∃ definition declaration, s.Pairs s.solver.solve definition declaration ∧
          Mends s.arena definition declaration c) ∧
      (changed = false → ∀ definition declaration,
        s.Pairs s.solver.solve definition declaration →
          s.InAccord s.solver.solve definition declaration) := by
  have hs := h.wellFormed
  obtain ⟨changed, t, ht, hst, hrises⟩ := hs.repair_ends
  obtain ⟨hquiet, -⟩ := ((repair_repairs s.solver.solve hs).of_ends ht).2
  refine ⟨changed, t, ht, ⟨?_, ?_⟩, hrises, ((repair_mends _ s).of_ends ht).2, ?_⟩
  · intro htrue heq
    obtain ⟨a, ha, hlt⟩ := (hrises htrue).lt
    rw [heq] at hlt
    exact absurd hlt (Category.not_lt.2 (Category.le_refl _))
  · intro hne
    by_contra hfalse
    rw [Bool.not_eq_true] at hfalse
    exact hne (hst.solve_eq hs (hquiet hfalse).1)
  · intro hfalse definition declaration hpairs
    exact h.inAccord (hquiet hfalse).2 hpairs

/-- The body of `demandingUnit` is followed, so the definition makes demands that its prototype
does not make. A first round changes the solution, and a second one does not: by then the
definition and the prototype are in accord. -/
theorem Reachable.repair_exact_demandingUnit :
    ∃ s t t', Reachable .default s ∧ Reachable .default t ∧
      (repair s.solver.solve).Ends s true t ∧ s.solver.solve.RisesTo t.solver.solve ∧
      (∃ c ∈ t.solver.constraints, c ∉ s.solver.constraints ∧
        ∃ definition declaration, Mends s.arena definition declaration c) ∧
      (repair t.solver.solve).Ends t false t' ∧ t.InAccord t.solver.solve 7 3 := by
  let rs : List Request := [.enter demandingUnit, .giveVariables demandingUnit 2,
    .giveVariables demandingUnit 5, .exit, .enter demandingUnit, .flow demandingUnit, .exit, .link]
  obtain ⟨_, s, hrequests, hlook⟩ := exists_ends (x := Session.requests rs) (s := .new .default)
    (g := fun _ s =>
      let round := (repair s.solver.solve) s
      let again := (repair round.2.solver.solve) round.2
      (round.1.toOption, again.1.toOption,
        decide (∃ c ∈ round.2.solver.constraints, c ∉ s.solver.constraints),
        decide (round.2.Pairs round.2.solver.solve 7 3)))
    (b := (some true, some false, true, true)) (by decide +kernel)
  simp only [Prod.mk.injEq, decide_eq_true_eq] at hlook
  obtain ⟨hround, hagain, hnew, hpairs⟩ := hlook
  have hs : Reachable .default s := Reachable.new.requests hrequests
  obtain ⟨changed, t, ht, -, hrises, hadds, -⟩ := hs.repair_exact
  rw [ht] at hround hagain hnew hpairs
  obtain rfl : changed = true := Option.some.inj hround
  have hreached : Reachable .default t :=
    hs.ended (r := .repair s.solver.solve) (ends_discard.2 ⟨true, ht⟩)
  obtain ⟨changed', t', ht', -, -, -, haccord⟩ := hreached.repair_exact
  rw [ht'] at hagain
  obtain rfl : changed' = false := Option.some.inj hagain
  obtain ⟨c, hc, hnot⟩ := hnew
  obtain ⟨definition, declaration, -, hmends⟩ := (hadds c hc).resolve_left hnot
  exact ⟨s, t, t', hs, hreached, ht, hrises rfl, ⟨c, hc, hnot, _, _, hmends⟩, ht',
    haccord rfl 7 3 hpairs⟩

end Session

end CheckedPointers
