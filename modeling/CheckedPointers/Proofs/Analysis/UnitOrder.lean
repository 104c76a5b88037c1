import CheckedPointers.Proofs.Analysis.Agreement
import CheckedPointers.Proofs.Analysis.Interlinking

/-!
The order of units. Everything about the analysis goes by it: ids, the places of entries in tables,
and which variants of a name are neighbours. None of it shows in what is reported, unless a call
passes its arguments to one of several signatures or neighbours differ in shape.
-/
namespace CheckedPointers

open Op TranslationUnit

namespace Session

variable {options : Options} {units units' : List TranslationUnit} {s s' : Session}

/-- The units of a program may come in any order. As many statements are followed and given up, as
many functions are unresolved and as many rounds are made, and what stands at an anchor or was made
on demand is reported alike. It is asked that the units agree on what they share, that no computed
callee denotes two signatures and that, if declarations are merged, those of a name have one shape. -/
theorem analyse_permuted {outcome outcome' : Outcome} (hunits : Concordant units)
    (hperm : units.Perm units') (h : (analyse units).Ends (.new options) outcome s)
    (h' : (analyse units').Ends (.new options) outcome' s') (hcalls : CallOne units s)
    (hcalls' : CallOne units' s') (hshape : s.OneShape) :
    outcome'.flow = outcome.flow ∧
      outcome'.link.unresolvedExterns = outcome.link.unresolvedExterns ∧
      outcome'.settled.rounds = outcome.settled.rounds ∧
      outcome'.settled.converged = outcome.settled.converged ∧
      outcome'.assignment.indexed = outcome.assignment.indexed ∧
      outcome'.assignment.implicits = outcome.assignment.implicits := by
  obtain ⟨p⟩ := exists_phases h
  obtain ⟨q⟩ := exists_phases h'
  obtain ⟨hflow, ρ, σ, made, made', horders⟩ := exists_twoOrders hunits hperm p.index q.index
    p.flow q.flow (hcalls.of_records p.records) (hcalls'.of_records q.records)
  have hlinked := horders.attuned_of_link (hshape.of_records p.records) p.link q.link
  have hbound : max q.linked.options.maxRepairRounds 1 = max p.linked.options.maxRepairRounds 1 := by
    rw [p.options_linked, q.options_linked]
  obtain ⟨settled, t, hsettle, hsettled, hrounds, hconverged, hsol⟩ :=
    (horders.twins.settle_matches _).leads.of_ends hlinked p.settle
  obtain ⟨rfl, rfl⟩ := hsettle.unique (hbound ▸ q.settle)
  obtain ⟨assigned, _, hassign, -, hindexed, himplicits⟩ :=
    (horders.twins.assignment_matches hsol).leads.of_ends hsettled p.assignment
  obtain ⟨rfl, -⟩ := hassign.unique q.assignment
  have hnames : q.followed.unresolvedNames.Perm p.followed.unresolvedNames :=
    (List.perm_ext_iff_of_nodup (nodup_unresolvedNames q.externsOf.sorted)
      (nodup_unresolvedNames p.externsOf.sorted)).2 fun _ => horders.mem_unresolvedNames.symm
  obtain ⟨l⟩ := exists_linkPasses p.link
  obtain ⟨l'⟩ := exists_linkPasses q.link
  exact ⟨hflow, by rw [l.unresolvedExterns, l'.unresolvedExterns, hnames.length_eq], hrounds, hconverged, hindexed,
    himplicits⟩

/-- A unit that sees the distant prototype and calls the function with a parameter of its own. -/
def callingUnit : TranslationUnit :=
  { id := 3
    file := "d.c"
    decls := #[
      ⟨"p", ⟨"c.c", 1, 1⟩, false, .param (.pointer .int) (some 2) none⟩,
      ⟨"c", ⟨"c.c", 1, 5⟩, false, .param (.pointer (.builtin "char")) (some 2) none⟩,
      distantFunction,
      ⟨"x", ⟨"d.c", 1, 1⟩, false, .param (.pointer .int) (some 4) none⟩,
      ⟨"g", ⟨"d.c", 1, 5⟩, false,
        .function ⟨.builtin "void", [.pointer .int], false, true⟩ [3] true (some [.expr 3])⟩]
    exprs := #[.declRef 2, .declRef 3, .intLiteral 0, .call 0 [1, 2]]
    topLevel := [2, 4] }

/-- The three units agree on what is declared where. -/
theorem concordant_callingUnit : Concordant [demandingUnit, distantUnit, callingUnit] := by
  have hlisting : Listing [demandingUnit, distantUnit, callingUnit] := by
    apply Listing.of_decls
    · decide
    · simp only [List.pairwise_cons, List.forall_mem_cons, List.not_mem_nil, false_imp_iff,
        implies_true, and_true, List.Pairwise.nil]
      refine ⟨⟨.of_apart (by decide), .of_apart (by decide)⟩, fun x hx y hy ha => ?_⟩
      simp only [distantUnit, callingUnit, List.mem_toArray, List.mem_cons, List.not_mem_nil,
        or_false] at hx hy
      rcases hx with rfl | rfl | rfl <;> rcases hy with rfl | rfl | rfl | rfl | rfl <;>
        first | exact ⟨rfl, rfl⟩ | exact absurd ha (by decide)
    · simp only [List.forall_mem_cons, List.not_mem_nil, false_imp_iff, implies_true, and_true]
      exact ⟨⟨[2, 5], by decide +kernel, by decide⟩, ⟨[2], by decide +kernel, by decide⟩,
        ⟨[2, 4], by decide +kernel, by decide⟩⟩
  refine .of_decls hlisting (by decide +kernel) (by decide +kernel) ?_
  simp only [List.pairwise_cons, List.forall_mem_cons, List.not_mem_nil, false_imp_iff,
    implies_true, and_true, List.Pairwise.nil]
  exact ⟨⟨by decide, by decide⟩, by decide⟩

/-- The one call names its callee. -/
theorem callOne_callingUnit (s : Session) :
    CallOne [demandingUnit, distantUnit, callingUnit] s := by
  refine callOne_of_named (fun u hu call callee args hx => ?_) s
  simp only [List.mem_cons, List.not_mem_nil, or_false] at hu
  rcases hu with rfl | rfl | rfl
  · match call, hx with
    | n + 5, hx => cases hx
  · cases hx
  · match call, hx with
    | 3, _ => exact fun hnone => nomatch hnone
    | n + 4, hx => cases hx

/-- What the definition demands reaches the argument of the call in either order. -/
theorem analyse_permuted_callingUnit :
    ∃ outcome outcome' s s', (analyse [demandingUnit, distantUnit, callingUnit]).Ends
        (.new .default) outcome s ∧
      (analyse [callingUnit, distantUnit, demandingUnit]).Ends (.new .default) outcome' s' ∧
      (outcome.assignment.at? ⟨"d.c", 1, 1⟩).map (·.map Report.categories) = some [[.arr]] ∧
      outcome'.settled.converged = outcome.settled.converged ∧
      outcome'.assignment.indexed = outcome.assignment.indexed ∧
      outcome'.assignment.implicits = outcome.assignment.implicits := by
  obtain ⟨outcome, s, h, hlook⟩ := exists_ends
    (x := analyse [demandingUnit, distantUnit, callingUnit]) (s := .new .default)
    (g := fun o s => (o.assignment.at? ⟨"d.c", 1, 1⟩).map (·.map Report.categories) =
        some [[.arr]] &&
      s.globals.values.map (bodiless s.arena) = [[3, 11], []] &&
      s.profile 3 = some (true, .singleton 0, [.singleton 1, .singleton 2]) &&
      s.profile 11 = some (true, .singleton 8, [.singleton 9, .singleton 10]) &&
      [0, 1, 2, 8, 9, 10].map s.levelsAndTarget = [some ([0], none), some ([1], none),
        some ([2], none), some ([6], none), some ([7], none), some ([8], none)])
    (b := true) (by decide +kernel)
  obtain ⟨outcome', s', h', -⟩ := exists_ends
    (x := analyse [callingUnit, distantUnit, demandingUnit]) (s := .new .default)
    (g := fun _ _ => ()) (b := ()) (by decide +kernel)
  simp only [Bool.and_eq_true, decide_eq_true_eq, List.map_cons, List.map_nil, List.cons.injEq,
    and_true] at hlook
  obtain ⟨⟨⟨⟨hlook, hbodiless⟩, hf⟩, hg⟩, hr, hp, hc, hr', hp', hc'⟩ := hlook
  have hshape : s.arena.SameShape 3 11 := sameShape_of_profile hf hg
    (.cons (sameShape_of_one_level hr hr') (.cons (sameShape_of_one_level hp hp')
      (.cons (sameShape_of_one_level hc hc') .nil)))
  have hshapes : s.OneShape := oneShape_of_globals fun set hset => by
    have hmem := List.mem_map_of_mem (f := bodiless s.arena) hset
    rw [hbodiless] at hmem
    simp only [List.mem_cons, List.not_mem_nil, or_false] at hmem
    rcases hmem with hmem | hmem <;> simp [hmem, hshape]
  have hperm : [demandingUnit, distantUnit, callingUnit].Perm
      [callingUnit, distantUnit, demandingUnit] := (List.reverse_perm _).symm
  have hcalls' : CallOne [callingUnit, distantUnit, demandingUnit] s' := fun u hu =>
    callOne_callingUnit s' u (hperm.mem_iff.2 hu)
  obtain ⟨-, -, -, hconverged, hindexed, himplicits⟩ := analyse_permuted concordant_callingUnit hperm
    h h' (callOne_callingUnit s) hcalls' hshapes
  exact ⟨outcome, outcome', s, s', h, h', hlook, hconverged, hindexed, himplicits⟩

/-- The declaration without prototype stands between the two prototypes, or before both. -/
theorem analyse_permuted_bareUnit :
    ∃ units units' outcome outcome' s s', Coherent units ∧ units.Perm units' ∧
      (analyse units).Ends (.new .default) outcome s ∧ outcome.settled.converged ∧
      (analyse units').Ends (.new .default) outcome' s' ∧ outcome'.settled.converged ∧
      (outcome.assignment.at? ⟨"c.c", 1, 1⟩).map (·.map Report.categories) = some [[.ptr]] ∧
      (outcome'.assignment.at? ⟨"c.c", 1, 1⟩).map (·.map Report.categories) = some [[.arr]] := by
  have hcoherent : Coherent [demandingUnit, bareUnit, distantUnit] := by
    refine ⟨by decide, ?_, ?_⟩
    · simp only [List.forall_mem_cons, List.not_mem_nil, false_imp_iff, implies_true, and_true]
      exact ⟨by decide, by decide, by decide⟩
    · simp only [List.pairwise_cons, List.forall_mem_cons, List.not_mem_nil, false_imp_iff,
        implies_true, and_true, List.Pairwise.nil]
      exact ⟨⟨.of_apart (by decide), .of_apart (by decide)⟩, .of_apart (by decide)⟩
  obtain ⟨outcome, s, h, hlook⟩ := exists_ends
    (x := analyse [demandingUnit, bareUnit, distantUnit]) (s := .new .default)
    (g := fun o _ => (o.settled.converged,
      (o.assignment.at? ⟨"c.c", 1, 1⟩).map (·.map Report.categories)))
    (b := (true, some [[.ptr]])) (by decide +kernel)
  obtain ⟨outcome', s', h', hlook'⟩ := exists_ends
    (x := analyse [bareUnit, demandingUnit, distantUnit]) (s := .new .default)
    (g := fun o _ => (o.settled.converged,
      (o.assignment.at? ⟨"c.c", 1, 1⟩).map (·.map Report.categories)))
    (b := (true, some [[.arr]])) (by decide +kernel)
  obtain ⟨hconverged, hlook⟩ := Prod.mk.inj hlook
  obtain ⟨hconverged', hlook'⟩ := Prod.mk.inj hlook'
  exact ⟨_, _, outcome, outcome', s, s', hcoherent, .swap _ _ _, h, hconverged, h', hconverged',
    hlook, hlook'⟩

end Session

end CheckedPointers
