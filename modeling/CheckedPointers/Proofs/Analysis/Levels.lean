import CheckedPointers.Proofs.Analysis.Exactness

/-!
What repair establishes level by level. It compares parameters by their least safe levels, so a
level of a declaration's parameter may stay safer than the same level of the definition's as long
as another level makes up for it.
-/
namespace CheckedPointers

open Op

namespace Arena

variable {arena : Arena} {sol : Solution} {p q : VarId}

/-- Every level of `q` is at least as unsafe as the same level of `p`, unless a less safe level of
`q` is. -/
def CoversLevels (arena : Arena) (sol : Solution) (q p : VarId) : Prop :=
  ∀ (j : Nat) (a b : Atom), (arena.levels p)[j]? = some a → (arena.levels q)[j]? = some b →
    sol.category a ≤ sol.category b ∨ ∃ (i : Nat) (c : Atom), i ≠ j ∧
      (arena.levels q)[i]? = some c ∧ sol.category b < sol.category c ∧
        sol.category a ≤ sol.category c

/-- What covers a variable covers each of its levels. -/
theorem Covers.levels (h : arena.Covers sol q p) : arena.CoversLevels sol q p := by
  intro j a b ha hb
  obtain ⟨d, hd⟩ : ∃ d, arena.leastSafeLevel? sol p = some d :=
    Solution.leastSafe_isSome (List.mem_of_getElem? ha)
  obtain ⟨c, hc⟩ : ∃ c, arena.leastSafeLevel? sol q = some c :=
    Solution.leastSafe_isSome (List.mem_of_getElem? hb)
  obtain ⟨⟨x, hx, hreached⟩, -⟩ := Solution.leastSafe_eq_some hc
  obtain ⟨-, hbound⟩ := Solution.leastSafe_eq_some hd
  obtain ⟨i, hi⟩ := List.mem_iff_getElem?.1 hx
  have hax : sol.category a ≤ sol.category x :=
    hreached ▸ Category.le_trans (hbound a (List.mem_of_getElem? ha)) (h c d hc hd)
  by_cases hle : sol.category a ≤ sol.category b
  · exact .inl hle
  · have hlt : sol.category b < sol.category x := Nat.lt_of_lt_of_le (Nat.lt_of_not_le hle) hax
    refine .inr ⟨i, x, ?_, hi, hlt, hax⟩
    rintro rfl
    obtain rfl : x = b := Option.some.inj (hi.symm.trans hb)
    exact hle hax

end Arena

namespace Session

variable {s t : Session} {definition declaration : VarId} {options : Options}

/-- After a round that asks for nothing, each level of the parameter of a declaration covers the
same level of the definition's, or another level of that parameter does. -/
theorem Reachable.repair_covers_levels (h : Reachable options s)
    (hends : (repair s.solver.solve).Ends s false t)
    (hpairs : s.Pairs s.solver.solve definition declaration) :
    ∃ f g, s.arena.function? definition = some f ∧ s.arena.function? declaration = some g ∧
      (f.params.length = g.params.length → ∀ i, ∀ p ∈ (Position.param i).slot f,
        ∀ q ∈ (Position.param i).slot g, s.arena.Tame s.solver.solve p q →
          s.arena.CoversLevels s.solver.solve q p) := by
  have hagreed : s.Agreed s.solver.solve :=
    (((repair_repairs s.solver.solve h.wellFormed).of_ends hends).2.1 rfl).2
  obtain ⟨f, g, hf, hg, -, hparams⟩ := h.inAccord hagreed hpairs
  exact ⟨f, g, hf, hg, fun hlen i p hp q hq htame => (hparams hlen i p hp q hq htame).levels⟩

/-! ## A level that stays behind -/

/-- A prototype, a definition that subscripts what its parameter points to, and a caller that
subscripts the argument itself. -/
def crossingUnit : TranslationUnit :=
  let doubled : CType := .pointer (.pointer .int)
  let signature : Signature := ⟨.builtin "void", [doubled], false, true⟩
  { id := 0
    file := "a.c"
    decls := #[
      ⟨"pp", ⟨"a.c", 1, 1⟩, false, .param doubled (some 1) none⟩,
      ⟨"f", ⟨"a.c", 1, 5⟩, false, .function signature [0] true none⟩,
      ⟨"pp", ⟨"a.c", 3, 1⟩, false, .param doubled (some 3) none⟩,
      ⟨"f", ⟨"a.c", 3, 5⟩, false, .function signature [2] true (some [.expr 3])⟩,
      ⟨"q", ⟨"a.c", 5, 1⟩, false, .param doubled (some 5) none⟩,
      ⟨"g", ⟨"a.c", 5, 5⟩, false, .function signature [4] true (some [.expr 6, .expr 9])⟩]
    exprs := #[.declRef 2, .unary .deref 0, .intLiteral 3, .subscript 1 2, .declRef 4,
      .intLiteral 1, .subscript 4 5, .declRef 3, .declRef 4, .call 7 [8]]
    topLevel := [1, 3, 5] }

/-- The analysis of `crossingUnit` up to its first round of repair. -/
theorem exists_crossing :
    ∃ s t f g, Reachable .default s ∧ (repair s.solver.solve).Ends s false t ∧
      s.Pairs s.solver.solve 5 2 ∧
      s.arena.function? 5 = some f ∧ f.params = [.singleton 4] ∧
      s.arena.function? 2 = some g ∧ g.params = [.singleton 1] ∧
      s.arena.levels 4 = [2, 3] ∧ s.arena.levels 1 = [0, 1] ∧
      [0, 1, 2, 3].map s.solver.solve.category = [.arr, .ptr, .ptr, .arr] := by
  let rs : List Request := [.enter crossingUnit, .giveVariables crossingUnit 1,
    .giveVariables crossingUnit 3, .giveVariables crossingUnit 5, .exit, .enter crossingUnit,
    .flow crossingUnit, .exit, .link]
  obtain ⟨_, s, hrequests, hlook⟩ := exists_ends (x := Session.requests rs) (s := .new .default)
    (g := fun _ s => ((repair s.solver.solve) s).1.toOption = some false &&
      s.Pairs s.solver.solve 5 2 && s.outline 5 = some ("f", true, .singleton 3, [.singleton 4]) &&
      s.outline 2 = some ("f", false, .singleton 0, [.singleton 1]) &&
      s.arena.levels 4 = [2, 3] && s.arena.levels 1 = [0, 1] &&
      [0, 1, 2, 3].map s.solver.solve.category = [.arr, .ptr, .ptr, .arr])
    (b := true) (by decide +kernel)
  simp only [Bool.and_eq_true, decide_eq_true_eq] at hlook
  obtain ⟨⟨⟨⟨⟨⟨hround, hpairs⟩, hf⟩, hg⟩, hp⟩, hq⟩, hcategories⟩ := hlook
  obtain ⟨f, hf, -, -, -, hfparams⟩ := exists_of_outline hf
  obtain ⟨g, hg, -, -, -, hgparams⟩ := exists_of_outline hg
  have hs : Reachable .default s := Reachable.new.requests hrequests
  obtain ⟨changed, t, ht, -⟩ := hs.wellFormed.repair_ends
  rw [ht] at hround
  obtain rfl : changed = false := Option.some.inj hround
  exact ⟨s, t, f, g, hs, ht, hpairs, hf, hfparams, hg, hgparams, hp, hq, hcategories⟩

/-- The body of `f` subscripts what its parameter points to, and the prototype does not ask for
that at this level: its parameter is as unsafe at the upper level, which is all that is compared. -/
theorem repair_leaves_lower_level :
    ∃ s t f g, Reachable .default s ∧ (repair s.solver.solve).Ends s false t ∧
      s.Pairs s.solver.solve 5 2 ∧
      s.arena.function? 5 = some f ∧ s.arena.function? 2 = some g ∧
      f.params.length = g.params.length ∧
      4 ∈ (Position.param 0).slot f ∧ 1 ∈ (Position.param 0).slot g ∧
      s.arena.Tame s.solver.solve 4 1 ∧
      ¬ ∀ (j : Nat) (a b : Atom), (s.arena.levels 4)[j]? = some a →
        (s.arena.levels 1)[j]? = some b →
          s.solver.solve.category a ≤ s.solver.solve.category b := by
  obtain ⟨s, t, f, g, hs, ht, hpairs, hf, hfparams, hg, hgparams, hp, hq, hcategories⟩ :=
    exists_crossing
  simp only [List.map_cons, List.map_nil, List.cons.injEq, and_true] at hcategories
  refine ⟨s, t, f, g, hs, ht, hpairs, hf, hg, by simp [hfparams, hgparams],
    by simp [Position.slot, hfparams], by simp [Position.slot, hgparams], ⟨?_, ?_⟩, ?_⟩
  · simp [Arena.hasWildLevel_iff, hp, hcategories]
  · simp [Arena.hasWildLevel_iff, hq, hcategories]
  · intro hall
    have hlower := hall 1 3 1 (by simp [hp]) (by simp [hq])
    rw [hcategories.2.2.2, hcategories.2.1] at hlower
    exact absurd hlower (by decide)

/-- In `crossingUnit` the upper level of the prototype's parameter makes up for the lower one. -/
theorem Reachable.repair_covers_levels_crossingUnit :
    ∃ s t, Reachable .default s ∧ (repair s.solver.solve).Ends s false t ∧
      s.Pairs s.solver.solve 5 2 ∧ s.arena.Tame s.solver.solve 4 1 ∧
      s.arena.CoversLevels s.solver.solve 1 4 ∧
      s.solver.solve.category 1 < s.solver.solve.category 3 := by
  obtain ⟨s, t, f, g, hs, ht, hpairs, hf, hfparams, hg, hgparams, hp, hq, hcategories⟩ :=
    exists_crossing
  simp only [List.map_cons, List.map_nil, List.cons.injEq, and_true] at hcategories
  have htame : s.arena.Tame s.solver.solve 4 1 :=
    ⟨by simp [Arena.hasWildLevel_iff, hp, hcategories],
      by simp [Arena.hasWildLevel_iff, hq, hcategories]⟩
  obtain ⟨f', g', hf', hg', hlevels⟩ := hs.repair_covers_levels ht hpairs
  obtain rfl : f' = f := Option.some.inj (hf'.symm.trans hf)
  obtain rfl : g' = g := Option.some.inj (hg'.symm.trans hg)
  have hcovers := hlevels (by simp [hfparams, hgparams]) 0 4 (by simp [Position.slot, hfparams]) 1
    (by simp [Position.slot, hgparams]) htame
  refine ⟨s, t, hs, ht, hpairs, htame, hcovers, ?_⟩
  rw [hcategories.2.2.2, hcategories.2.1]
  decide

end Session

end CheckedPointers
