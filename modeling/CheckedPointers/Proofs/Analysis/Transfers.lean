import CheckedPointers.Proofs.Analysis.Subscripts
import CheckedPointers.Proofs.Source.Closed

/-!
Values have reached their targets to the end. What an attempt equates is equated in the returned
categories, and the same variables are found again in the session left behind, once the unit is
open as the attempt left it.
-/
namespace CheckedPointers

open Op

namespace Session

variable {s t : Session} {u : TranslationUnit} {before after : List TranslationUnit}

/-- The session with that unit open which `t` has open. -/
def within (s t : Session) : Session := { s with opened := t.opened }

/-- What follows a visit goes on with it, if the unit is opened again. -/
theorem Follows.within (h : s.Follows t) : s.Visits (t.within s) where
  options := h.options
  solver := h.solver
  arena := h.arena
  registered := h.registered
  wellFormed hs :=
    { h.wellFormed hs with
      literals := fun o ho e he => h.arena.isPointer (hs.literals o ho e he)
      unknownCallees := fun o ho e he => h.arena.isFunction (hs.unknownCallees o ho e he) }
  index := h.index
  globals := h.globals
  implicits := h.implicits
  pointees := h.pointees
  opened o ho := ⟨o, ho, .refl o⟩

/-- An attempt that was not given up has its value where it is meant to be, and so has every
assignment and every call inside of it: in the returned categories, what a value denotes agrees
with its targets, arguments agree with the slots of their parameters, and what was converted from
another type or passed beyond the parameters is wild. -/
theorem analyse_transfers_values {options : Options} {outcome : Outcome}
    (h : (analyse (before ++ u :: after)).Ends (.new options) outcome s) :
    ∃ steps, u.steps = .ok steps ∧ ∀ pre step post, steps = pre ++ step :: post →
      ∃ s₁, (untilStep (before ++ u :: after) before u pre).Ends (.new options) ⟨⟩ s₁ ∧
        ∀ s₂, (step.run u).Ends s₁ ⟨⟩ s₂ →
          step.Delivers u outcome.settled.sol.verdict (s.within s₂) ∧
            ∀ node, u.Inside node step.root → ∀ x, u.expr node = .ok x →
              TransfersAt u step.view outcome.settled.sol.verdict node (s.within s₂) x := by
  obtain ⟨phases⟩ := exists_phases h
  obtain ⟨steps, hsteps, hall⟩ := phases.exists_step
  refine ⟨steps, hsteps, fun pre step post heq => ?_⟩
  obtain ⟨s₁, b, s₂, huntil, hs₁, hattempt, hfollows⟩ := hall pre step post heq
  refine ⟨s₁, huntil, fun s₂' hstep => ?_⟩
  -- the attempt of a step that ends is where the step ends
  have hended : (attempt (step.run u)).Ends s₁ true s₂' := ends_attempt.2 (.inl ⟨rfl, hstep⟩)
  obtain rfl := (hattempt.unique hended).2
  obtain ⟨hvisits, hdelivers, hfollowed⟩ := (step.run_follows u hs₁).of_ends hstep
  have hs₂ := hvisits.wellFormed hs₁
  have hwithin : s₂.Visits (s.within s₂) := hfollows.within
  have hsolved : s₂.solver.verdict.Implies outcome.settled.sol.verdict := by
    rw [phases.isSettled.solution]
    exact hfollows.solver.verdict.trans phases.wellFormed.solver.verdict
  refine ⟨hdelivers.visits hwithin hsolved, fun node hnode x hx => ?_⟩
  exact ((hfollowed node hnode).transfers x hx).visits hs₂ hwithin hsolved

/-- A call with two arguments for one parameter: an assignment of a converted pointer, and that
pointer itself. -/
def convertedArgument : TranslationUnit :=
  let ptr : CType := .pointer .int
  let text : CType := .pointer (.builtin "char")
  { id := 0
    file := "a.c"
    decls := #[
      ⟨"q", ⟨"a.c", 1, 7⟩, false, .param ptr (some 1) none⟩,
      ⟨"g", ⟨"a.c", 1, 5⟩, false, .function ⟨.int, [ptr], false, true⟩ [0] true none⟩,
      ⟨"p", ⟨"a.c", 3, 7⟩, false, .param ptr (some 4) none⟩,
      ⟨"c", ⟨"a.c", 3, 9⟩, false, .param text (some 4) none⟩,
      ⟨"f", ⟨"a.c", 3, 5⟩, false,
        .function ⟨.int, [ptr, text], false, true⟩ [2, 3] true (some [.expr 6])⟩]
    exprs := #[.declRef 2, .declRef 3, .cast ptr 1, .binary .assign 0 2, .declRef 1, .declRef 3,
      .call 4 [3, 5]]
    topLevel := [1, 4] }

theorem analyse_transfers_values_convertedArgument :
    ∃ outcome s, (analyse [convertedArgument]).Ends (.new .default) outcome s ∧
      (∀ p c a b, s.arena.pointer? 4 = some p → s.arena.pointer? 5 = some c →
        p.atoms[0]? = some a → c.atoms[0]? = some b →
          outcome.settled.sol.category a = outcome.settled.sol.category b) ∧
      s.arena.Coincide outcome.settled.sol.verdict.same 1 4 ∧
      s.arena.All outcome.settled.sol.verdict.wild 5 := by
  let u := convertedArgument
  let visit : Op PUnit := do
    untilStep [u] [] u []
    (FlowStep.expr 6).run u
  obtain ⟨_, s₂, hvisit, -⟩ := exists_ends (x := visit) (s := .new .default)
    (g := fun _ _ => true) (b := true) (by decide +kernel)
  obtain ⟨outcome, s, h, hlook⟩ := exists_ends (x := analyse [u]) (s := .new .default)
    (g := fun _ s => (
      [0, 1, 3, 5].map fun e => (denote u e .body (s.within (visit (.new .default)).2)).1.toOption,
      (calleeVariables u .body 6 4 (s.within (visit (.new .default)).2)).1.toOption,
      (s.arena.reachableFunction? 2).map FunctionVariable.params, s.options))
    (b := ([some (.singleton 4), some (.singleton 5), some (.singleton 4), some (.singleton 5)],
      some (.singleton 2), some [.singleton 1], .default)) (by decide +kernel)
  have hended : (visit (.new .default)).2 = s₂ := by rw [hvisit]
  rw [hended] at hlook
  simp only [List.map_cons, List.map_nil, Prod.mk.injEq, List.cons.injEq, and_true] at hlook
  obtain ⟨⟨htarget, hsource, hfirst, hsecond⟩, hcallee, hreach, hoptions⟩ := hlook
  obtain ⟨_, s₁, huntil, hstep⟩ := ends_bind.1 hvisit
  have h' : (analyse ([] ++ u :: [])).Ends (.new .default) outcome s := h
  obtain ⟨steps, hsteps, hall⟩ := analyse_transfers_values h'
  have hone : u.steps.toOption = some ([] ++ FlowStep.expr 6 :: []) := by decide +kernel
  rw [hsteps] at hone
  obtain ⟨s₁', huntil', htransfers⟩ := hall [] (.expr 6) [] (Option.some.inj hone)
  obtain rfl := (huntil.unique huntil').2
  obtain ⟨-, hnodes⟩ := htransfers s₂ hstep
  have hassigned := hnodes 3 (.operand (x := .call 4 [3, 5]) rfl (by decide) .refl)
    (.binary .assign 0 2) rfl
  have hpassed := hnodes 6 .refl (.call 4 [3, 5]) rfl
  have hnone : ∀ e, ¬ u.AllowedCall (s.within s₂).options e := by
    intro e hallowed
    have hnames : ∀ d ∈ u.decls, ¬ Options.default.allows d.name := by decide +kernel
    induction hallowed with
    | call _ _ hd _ hallowed =>
      have hd := Array.mem_of_getElem? (TranslationUnit.decl_eq_ok.1 hd)
      exact hnames _ hd (hoptions ▸ hallowed)
    | converted _ _ _ ih => exact ih
  refine ⟨outcome, s, h, fun p c a b hp hc ha hb => ?_, ?_⟩
  · obtain ⟨targets, htargets, hflows⟩ := hassigned
    obtain rfl := htargets.eq_of_run htarget
    cases hflows with
    | allowed h => exact absurd h (hnone 2)
    | plain hcore hx hplain =>
      cases hcore
      exact absurd (Except.ok.inj hx).symm (hplain _ _)
    | converted hcore hx hvalues hsame =>
      cases hcore
      cases hx
      obtain rfl := hvalues.eq_of_run hsource
      have h45 := hsame 4 ((VarSet.mem_singleton 4 4).2 rfl) 5 ((VarSet.mem_singleton 5 5).2 rfl)
      exact h45.levels outcome.settled.sol.equivalence_same hp hc ha hb
  · cases hpassed with
    | allowed h => exact absurd h (hnone 6)
    | passed hcandidates hholds hargs =>
      obtain rfl := hcandidates.eq_of_run hcallee
      obtain ⟨f, hf, hparams⟩ := Option.map_eq_some_iff.1 hreach
      have hpass := hargs f (by simp [within, VarSet.singleton, hf])
      rw [hparams] at hpass
      constructor
      · obtain ⟨values, hvalues, hsame, -⟩ := hpass 0 3 rfl
        obtain rfl := hvalues.eq_of_run hfirst
        exact hsame _ rfl 1 ((VarSet.mem_singleton 1 1).2 rfl) 4 ((VarSet.mem_singleton 4 4).2 rfl)
      · obtain ⟨values, hvalues, -, hwild⟩ := hpass 1 5 rfl
        obtain rfl := hvalues.eq_of_run hsecond
        exact hwild rfl 5 ((VarSet.mem_singleton 5 5).2 rfl)

end Session

end CheckedPointers
