import CheckedPointers.Proofs.Analysis.Phases

/-!
Subscripts have bounds to the end. What a subscript requires when its statement is followed is
recorded, and no later visit, linking or repair takes a recorded constraint back.
-/
namespace CheckedPointers

open Op

namespace Session

variable {s t : Session} {u : TranslationUnit} {before after : List TranslationUnit}

/-- An analysis of `units` up to some attempt: the units `before` are followed, and of the unit `u`
all attempts that precede it. -/
def untilStep (units before : List TranslationUnit) (u : TranslationUnit)
    (pre : List FlowStep) : Op PUnit := do
  indexUnits units
  discard (flowUnits before)
  enter u
  attemptAll u pre

/-- Units are followed one after another, so a run can be cut anywhere. -/
theorem ends_flowUnits_append {rest : List TranslationUnit} {f : FlowSummary}
    (h : (flowUnits (before ++ rest)).Ends s f t) :
    ∃ f₁ w f₂, (flowUnits before).Ends s f₁ w ∧ (flowUnits rest).Ends w f₂ t := by
  induction before generalizing s f with
  | nil => exact ⟨_, s, f, ends_pure.2 ⟨rfl, rfl⟩, h⟩
  | cons v before ih =>
    obtain ⟨_, s₁, henter, h⟩ := ends_bind.1 h
    obtain ⟨f', s₂, hflow, h⟩ := ends_bind.1 h
    obtain ⟨_, s₃, hexit, h⟩ := ends_bind.1 h
    obtain ⟨f'', s₄, hrest, h⟩ := ends_bind.1 h
    obtain ⟨-, rfl⟩ := ends_pure.1 h
    obtain ⟨f₁, w, f₂, hbefore, hlast⟩ := ih hrest
    refine ⟨f'.add f₁, w, f₂, ?_, hlast⟩
    exact ends_bind.2 ⟨_, s₁, henter, ends_bind.2 ⟨f', s₂, hflow, ends_bind.2 ⟨_, s₃, hexit,
      ends_bind.2 ⟨f₁, w, hbefore, ends_pure.2 ⟨rfl, rfl⟩⟩⟩⟩⟩

/-- Every attempt of an analysis that ends was made, and the session only grew from there. -/
theorem Phases.exists_step {options : Options} {outcome : Outcome}
    (p : Phases (before ++ u :: after) (.new options) outcome t) :
    ∃ steps, u.steps = .ok steps ∧ ∀ pre step post, steps = pre ++ step :: post →
      ∃ s₁ b s₂, (untilStep (before ++ u :: after) before u pre).Ends (.new options) ⟨⟩ s₁ ∧
        s₁.WellFormed ∧ (attempt (step.run u)).Ends s₁ b s₂ ∧ s₂.Follows t := by
  obtain ⟨f₁, w, f₂, hbefore, hrest⟩ := ends_flowUnits_append p.flow
  obtain ⟨w₁, steps, w₂, w₃, f₃, henter, hsteps, hattempts, hexit, hafter⟩ :=
    ends_flowUnits_cons hrest
  refine ⟨steps, hsteps, ?_⟩
  rintro pre step post rfl
  obtain ⟨s₁, hpre, hpost⟩ := (attemptAll_append u pre (step :: post)).1 hattempts
  obtain ⟨b, s₂, hstep, hpost⟩ := (attemptAll_cons u step post).1 hpost
  have hw := (follows_of_flowUnits hbefore p.wellFormed_indexed).wellFormed p.wellFormed_indexed
  have hw₁ := (((enter_meets u w).of_ends henter).1 : w.Follows w₁).wellFormed hw
  have hs₁ := (((attemptAll_meets u pre hw₁).of_ends hpre).1 : w₁.Visits s₁).wellFormed hw₁
  have h₁₂ : s₁.Visits s₂ := ((attempt_meets u step hs₁).of_ends hstep).1
  have hs₂ := h₁₂.wellFormed hs₁
  have h₂ : s₂.Visits w₂ := ((attemptAll_meets u post hs₂).of_ends hpost).1
  have h₃ : w₂.Follows w₃ := ((exit_meets w₂).of_ends hexit).1
  have h₂₃ := h₂.toFollows.trans h₃
  have h₄ := h₂₃.trans (follows_of_flowUnits hafter (h₂₃.wellFormed hs₂))
  refine ⟨s₁, b, s₂, ?_, hs₁, hstep, h₄.trans p.records.creates.visits.toFollows⟩
  exact ends_bind.2 ⟨⟨⟩, p.indexed, p.index, ends_bind.2 ⟨⟨⟩, w, ends_discard.2 ⟨f₁, hbefore⟩,
    ends_bind.2 ⟨⟨⟩, w₁, henter, hpre⟩⟩⟩

/-- Whatever the base of a subscript denotes has its outermost level at `arr` or less safe in the
returned categories, if the index is not the literal zero and the attempt that the subscript is
part of was not given up. -/
theorem analyse_bounds_subscripts {options : Options} {outcome : Outcome}
    (h : (analyse (before ++ u :: after)).Ends (.new options) outcome s) :
    ∃ steps, u.steps = .ok steps ∧ ∀ pre step post, steps = pre ++ step :: post →
      ∃ s₁, (untilStep (before ++ u :: after) before u pre).Ends (.new options) ⟨⟩ s₁ ∧
        ∀ s₂, (step.run u).Ends s₁ ⟨⟩ s₂ →
          ∀ node, u.Inside node step.root →
            ∀ base index, u.expr node = .ok (.subscript base index) → ¬ u.IsLiteralZero index →
              ∃ set, (denote u base step.view).Ends s₂ set s₂ ∧
                ∀ v ∈ set, ∀ p a, s.arena.pointer? v = some p → p.atoms.head? = some a →
                  .arr ≤ outcome.settled.sol.category a := by
  obtain ⟨phases⟩ := exists_phases h
  obtain ⟨steps, hsteps, hall⟩ := phases.exists_step
  refine ⟨steps, hsteps, fun pre step post heq => ?_⟩
  obtain ⟨s₁, b, s₂, huntil, hs₁, hattempt, hgrows⟩ := hall pre step post heq
  refine ⟨s₁, huntil, fun s₂' hstep node hnode base index hsub hzero => ?_⟩
  -- the attempt of a step that ends is where the step ends
  have hended : (attempt (step.run u)).Ends s₁ true s₂' := ends_attempt.2 (.inl ⟨rfl, hstep⟩)
  obtain rfl := (hattempt.unique hended).2
  have hbounded := ((step.run_meets u hs₁).of_ends hstep).2
  obtain ⟨set, hdenote, hset, hbounds⟩ := hbounded node hnode base index hsub hzero
  refine ⟨set, hdenote s₂ (.refl s₂), fun v hv p a hp ha => ?_⟩
  rw [hgrows.arena.pointer?_eq (hset v hv)] at hp
  have hentails := (hbounds v hv p a hp ha).grows hgrows.solver
  rw [phases.isSettled.solution]
  exact hentails.satisfies phases.wellFormed.solver

/-- A body that passes an element of a subscripted parameter to a function declared elsewhere. -/
def subscriptedArgument : TranslationUnit :=
  let ptr : CType := .pointer .int
  let outer : Signature := ⟨.int, [.pointer ptr], false, true⟩
  let inner : Signature := ⟨.int, [ptr], false, true⟩
  { id := 0
    file := "a.c"
    decls := #[
      ⟨"q", ⟨"a.c", 1, 7⟩, false, .param ptr (some 1) none⟩,
      ⟨"g", ⟨"a.c", 1, 5⟩, false, .function inner [0] true none⟩,
      ⟨"p", ⟨"a.c", 3, 7⟩, false, .param (.pointer ptr) (some 3) none⟩,
      ⟨"f", ⟨"a.c", 3, 5⟩, false, .function outer [2] true (some [.expr 5])⟩]
    exprs := #[.declRef 2, .paren 0, .intLiteral 3, .subscript 1 2, .declRef 1, .call 4 [3]]
    topLevel := [1, 3] }

/-- The subscripted parameter ends with bounds on its outermost level. -/
theorem analyse_bounds_subscripts_argument :
    ∃ outcome s, (analyse [subscriptedArgument]).Ends (.new .default) outcome s ∧
      ∃ s₂, (denote subscriptedArgument 1 .body).Ends s₂ (.singleton 4) s₂ ∧
        ∀ p a, s.arena.pointer? 4 = some p → p.atoms.head? = some a →
          .arr ≤ outcome.settled.sol.category a := by
  obtain ⟨outcome, s, h, -⟩ := exists_ends (x := analyse [subscriptedArgument])
    (s := .new .default) (g := fun o _ => o.settled.converged) (b := true) (by decide +kernel)
  let look : Op VarSet := do
    untilStep [subscriptedArgument] [] subscriptedArgument []
    (FlowStep.expr 5).run subscriptedArgument
    denote subscriptedArgument 1 .body
  obtain ⟨found, s₃, hends, hfound⟩ := exists_ends (x := look) (s := .new .default)
    (g := fun set _ => set) (b := .singleton 4) (by decide +kernel)
  obtain ⟨_, s₁, huntil, hends⟩ := ends_bind.1 hends
  obtain ⟨_, s₂, hstep, hdenote⟩ := ends_bind.1 hends
  have h' : (analyse ([] ++ subscriptedArgument :: [])).Ends (.new .default) outcome s := h
  obtain ⟨steps, hsteps, hall⟩ := analyse_bounds_subscripts h'
  have hone : subscriptedArgument.steps.toOption = some ([] ++ FlowStep.expr 5 :: []) := by
    decide +kernel
  rw [hsteps] at hone
  obtain ⟨s₁', huntil', hbounds⟩ := hall [] (.expr 5) [] (Option.some.inj hone)
  obtain rfl := (huntil.unique huntil').2
  have hinside : subscriptedArgument.Inside 3 5 :=
    .operand (x := .call 4 [3]) rfl (by decide) .refl
  have hindex : ¬ subscriptedArgument.IsLiteralZero 2 := by
    intro hzero
    cases hzero with
    | literal h => exact absurd (Expr.intLiteral.inj (Except.ok.inj h)) (by decide)
    | converted hx hinner _ =>
      rw [← Except.ok.inj hx] at hinner
      cases hinner
  obtain ⟨set, hset, hcategory⟩ := hbounds s₂ hstep 3 hinside 1 2 rfl hindex
  have hsame : set = .singleton 4 := (hset.unique hdenote).1.trans hfound
  subst hsame
  exact ⟨outcome, s, h, s₂, hset, hcategory 4 ((VarSet.mem_singleton 4 4).2 rfl)⟩

end Session

end CheckedPointers
