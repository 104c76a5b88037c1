import CheckedPointers.Proofs.Analysis.Progress
import CheckedPointers.Proofs.Session.EntwinedRounds
import CheckedPointers.Proofs.Session.Indirection
import CheckedPointers.Proofs.Session.MirroredUnits

/-!
The order of statements. Units are indexed alike in every order. From there on what one order makes
stands in what the other one makes, and so linking, repair and reports come to the same.
-/
namespace CheckedPointers

open Op

namespace Session

variable {s t : Session} {options : Options} {units units' : List TranslationUnit}

/-! ## The indexed program -/

/-- Every session stands in itself. -/
theorem Reachable.embeds_self (h : Reachable options s) : s.Embeds .id s where
  wellFormed := h.wellFormed
  options := rfl
  arena v x hx := by
    rw [Variable.rename_id]
    exact hx
  recorded c hc := by
    rw [Constraint.rename_id]
    exact .inr ((h.wellFormed.solver.canonical c hc).1.symm ▸ hc)
  index _ := rfl
  stored anchor := by
    refine ⟨fun v hv => h.wellFormed.stored_lt hv, fun w => ?_, ?_⟩
    · simp [Renaming.id]
    · rw [funext FunctionVariable.rename_id, Option.map_id']
  implicits key set hset := by
    obtain ⟨v, rfl⟩ := h.signature hset
    exact ⟨v, rfl, hset⟩
  declared key set hset := ⟨set, hset, fun _ hv => hv⟩
  pointees v m hm := ⟨(h.knowsBelow.lies v m hm).lt, by cases m <;> exact hm⟩
  opened o ho := ⟨o, ho, rfl, rfl, fun _ _ h => h, fun _ _ h => h⟩

theorem LiesBelow.of_hasBelow {v : VarId} {made : Option VarId} (h : s.arena.HasBelow v made) :
    s.LiesBelow v made := by
  refine ⟨h.lt, ?_⟩
  cases made with
  | none => exact h.2.symm
  | some d =>
    obtain ⟨-, p, q, hp, hq, hd⟩ := h
    rw [hp, Option.bind_some, Option.bind_some, hq, hd]

/-- What is remembered to lie below a pointer does. -/
theorem Reachable.pointeesLie (h : Reachable options s) : s.PointeesLie := by
  apply h.keeps (P := PointeesLie)
  · rintro _ ⟨⟩
  · intro s t hs hst hall e he
    have hold : e ∈ s.pointees.entries → t.LiesBelow e.1 e.2 := fun he =>
      (hall e he).extends (hs.pointees e he) (hst.step.extends hs)
    rcases hst.step.finds_below with heq | ⟨v, made, -, heq, hbelow, -⟩
    · exact hold (heq ▸ he)
    · rw [heq] at he
      rcases OrderedMap.mem_insert he with rfl | he
      · exact LiesBelow.of_hasBelow hbelow
      · exact hold he
  · exact fun _ hall => hall

/-! ## Before and after the units are followed -/

/-- Following units is a sequence of requests. -/
theorem Reachable.flowUnits {f : FlowSummary} (h : Reachable options s)
    (hends : (flowUnits units).Ends s f t) : Reachable options t := by
  induction units generalizing s f with
  | nil =>
    obtain ⟨-, rfl⟩ := ends_pure.1 hends
    exact h
  | cons u rest ih =>
    obtain ⟨_, t₁, henter, hends⟩ := ends_bind.1 hends
    obtain ⟨f₁, t₂, hflow, hends⟩ := ends_bind.1 hends
    obtain ⟨_, t₃, hexit, hends⟩ := ends_bind.1 hends
    obtain ⟨f₂, t₄, hrest, hends⟩ := ends_bind.1 hends
    obtain ⟨-, rfl⟩ := ends_pure.1 hends
    have h₁ := h.ended (r := .enter u) henter
    have h₂ := h₁.ended (r := .flow u) (ends_discard.2 ⟨f₁, hflow⟩)
    exact ih (h₂.ended (r := .exit) hexit) hrest

/-- The units are indexed with their statements in any order. -/
theorem indexUnits_reordered (h : List.Forall₂ TranslationUnit.Reorders units units') :
    indexUnits units' = indexUnits units := by
  induction h with
  | nil => rfl
  | @cons u u' units units' hu _ ih =>
    have hunit : indexUnit u' = indexUnit u :=
      hu.congr (f := fun u => indexUnit u) fun u => indexUnit_skeleton u
    change (discard (indexUnit u') >>= fun _ => indexUnits units') =
      (discard (indexUnit u) >>= fun _ => indexUnits units)
    rw [hunit, ih]

theorem afterUnits {f : FlowSummary} (hs : Reachable options s)
    (h : (flowUnits units).Ends s f t) : AfterUnits options units s t :=
  ⟨hs.flowUnits h, follows_of_flowUnits h hs.wellFormed, ((flowUnits_demands units s).of_ends h).1⟩

/-! ## The whole analysis -/

/-- Units with the statements of their bodies in another order are analysed with the same outcome.
Everything at an anchor and everything made on demand is reported alike, as many statements were
followed and given up, linking did the same, and as many rounds were made and came to rest or not.
The names of variables and atoms differ, for they are made as statements ask for them. The one place
that goes by these names is a call of one signature or another, which passes its arguments to the
last of them; so no call may be such a one, in either order. -/
theorem analyse_reordered {outcome : Outcome}
    (hunits : List.Forall₂ TranslationUnit.Reorders units units')
    (hkeys : ∀ u ∈ units, u.KeysTellNames)
    (hone : ∀ b, (indexUnits units).Ends (.new options) ⟨⟩ b →
      OneCallee units b ∧ OneCallee units' b)
    (h : (analyse units).Ends (.new options) outcome t) :
    ∃ outcome' t', (analyse units').Ends (.new options) outcome' t' ∧
      outcome'.flow = outcome.flow ∧ outcome'.link = outcome.link ∧
      outcome'.settled.rounds = outcome.settled.rounds ∧
      outcome'.settled.converged = outcome.settled.converged ∧
      outcome'.assignment.indexed = outcome.assignment.indexed ∧
      outcome'.assignment.implicits = outcome.assignment.implicits := by
  obtain ⟨p⟩ := exists_phases h
  have hindexed : HasIndexed options units p.indexed := HasIndexed.new.all p.index
  have hb := hindexed.reachable
  obtain ⟨hcalls, hcalls'⟩ := hone p.indexed p.index
  have hopened := opened_of_indexUnits p.index rfl
  have hself : Alike p.indexed p.indexed p.indexed :=
    ⟨.refl _, .refl _, ⟨.id, .refl _ _ _, hb.embeds_self⟩, ⟨.id, .refl _ _ _, hb.embeds_self⟩⟩
  obtain ⟨s, hflow, halike⟩ := flowUnits_alike hunits hkeys hself hopened hopened hb.pointeesLie
    hb.pointeesLie hcalls hcalls' p.flow
  obtain ⟨ρ, hρ, hforth⟩ := halike.back
  obtain ⟨σ, hσ, hback⟩ := halike.forth
  have hentwined : Entwined options units units' ρ σ p.indexed p.followed s :=
    ⟨hb.wellFormed, afterUnits hb p.flow, afterUnits hb hflow, hρ, hσ, hforth, hback⟩
  have hclosed := opened_of_flowUnits p.flow hopened
  have hclosed' := opened_of_flowUnits hflow hopened
  obtain ⟨_, linked, hlink, hstep, rfl⟩ :=
    (hentwined.link_matches hclosed hclosed').leads.of_ends hentwined.inStep p.link
  have hoptions : linked.options = p.linked.options := by
    rw [hstep.right.only, hstep.left.only]
    exact hentwined.forth.options
  obtain ⟨settled, t', hsettle, hstep', hrounds, hconverged, hsol⟩ :=
    (hentwined.twins.settle_matches _).leads.of_ends hstep.attuned p.settle
  obtain ⟨assigned, t'', hassign, -, hindexed', himplicits⟩ :=
    (hentwined.twins.assignment_matches hsol).leads.of_ends hstep' p.assignment
  obtain ⟨hassigned, rfl⟩ := ends_assignment.1 hassign
  let q : Phases units' (.new options) ⟨settled, assigned, outcome.link, outcome.flow⟩ t' :=
    { indexed := p.indexed, followed := s, linked := linked
      index := by
        rw [indexUnits_reordered hunits]
        exact p.index
      flow := hflow, link := hlink
      settle := by
        rw [hoptions]
        exact hsettle
      assignment := hassign }
  exact ⟨_, t', q.ends, rfl, rfl, hrounds, hconverged, hindexed', himplicits⟩

/-- Two parameters: a subscripted one that is passed to one function, and one that is passed to
another function. Neither function has a prototype. -/
def twoArguments (body : List Stmt) : TranslationUnit :=
  let ptr : CType := .pointer .int
  let param (name : String) (line column owner : Nat) : Decl :=
    ⟨name, ⟨"a.c", line, column⟩, false, .param ptr (some owner) none⟩
  let unary : Signature := ⟨ptr, [ptr], false, true⟩
  { id := 0
    file := "a.c"
    decls := #[
      param "p" 1 1 1,
      ⟨"f", ⟨"a.c", 1, 5⟩, false, .function unary [0] true (some [])⟩,
      param "q" 3 1 3,
      ⟨"g", ⟨"a.c", 3, 5⟩, false, .function unary [2] true (some [])⟩,
      param "x" 5 1 6,
      param "y" 5 5 6,
      ⟨"h", ⟨"a.c", 5, 9⟩, false, .function ⟨.int, [ptr, ptr], false, true⟩ [4, 5] true
        (some body)⟩]
    exprs := #[.declRef 4, .intLiteral 1, .subscript 0 1, .declRef 1, .declRef 4, .call 3 [4],
      .declRef 3, .declRef 5, .call 6 [7]]
    topLevel := [1, 3, 6] }

/-- The calls name their callees. -/
theorem namedCallee_twoArguments (body : List Stmt) (call callee : ExprId) (args : List ExprId)
    (h : (twoArguments body).expr call = .ok (.call callee args)) :
    (twoArguments body).namedCallee call ≠ .ok none := by
  match call, h with
  | 5, _ => exact fun hnone => nomatch hnone
  | 8, _ => exact fun hnone => nomatch hnone
  | n + 9, h => cases h

/-- The functions ask for their signatures in one order and in the other. -/
theorem analyse_reordered_twoArguments :
    ∃ u u' outcome outcome' s s', u.Reorders u' ∧
      (analyse [u]).Ends (.new .default) outcome s ∧
      (analyse [u']).Ends (.new .default) outcome' s' ∧
      (outcome.assignment.at? ⟨"a.c", 5, 1⟩).map (·.map Report.categories) = some [[.arr]] ∧
      outcome'.assignment.indexed = outcome.assignment.indexed ∧
      outcome'.assignment.implicits = outcome.assignment.implicits := by
  let u := twoArguments [.expr 2, .expr 5, .expr 8]
  let u' := twoArguments [.expr 8, .expr 5, .expr 2]
  have hbody : Stmt.Reorders [.expr 2, .expr 5, .expr 8] [.expr 8, .expr 5, .expr 2] := by
    constructor
    · simp only [Stmt.unblocked]
      exact (List.reverse_perm [Stmt.expr 8, .expr 5, .expr 2])
    · simp only [Stmt.unblocked]
      rfl
  have hunit : u.Reorders u' := by
    refine ⟨rfl, rfl, rfl, rfl, ?_⟩
    simp only [u, u', twoArguments, List.forall₂_cons, List.Forall₂.nil, Decl.Reorders.refl,
      true_and, and_true]
    exact .body ⟨"h", ⟨"a.c", 5, 9⟩, false, .enumConstant 0⟩ hbody
  have hkeys : u.KeysTellNames := by
    unfold TranslationUnit.KeysTellNames
    decide +kernel
  have hcalls (body : List Stmt) (b : Session) : OneCallee [twoArguments body] b :=
    oneCallee_of_named (by
      intro v hv
      obtain rfl := List.mem_singleton.1 hv
      exact namedCallee_twoArguments body) b
  obtain ⟨outcome, s, h, hlook⟩ := exists_ends (x := analyse [u]) (s := .new .default)
    (g := fun o _ => (o.assignment.at? ⟨"a.c", 5, 1⟩).map (·.map Report.categories))
    (b := some [[.arr]]) (by decide +kernel)
  obtain ⟨outcome', s', h', -, -, -, -, hindexed, himplicits⟩ :=
    analyse_reordered (.cons hunit .nil) (by simpa using hkeys)
      (fun b _ => ⟨hcalls _ b, hcalls _ b⟩) h
  exact ⟨u, u', outcome, outcome', s, s', hunit, h, h', hlook, hindexed,
    himplicits⟩

/-- Three parameters: a subscripted one that is passed to one function, one that is passed to
another function, and one that is passed to either. Neither function has a prototype. -/
def threeArguments (body : List Stmt) : TranslationUnit :=
  let ptr : CType := .pointer .int
  let param (name : String) (line column owner : Nat) : Decl :=
    ⟨name, ⟨"a.c", line, column⟩, false, .param ptr (some owner) none⟩
  let unary : Signature := ⟨ptr, [ptr], false, true⟩
  { id := 0
    file := "a.c"
    decls := #[
      param "p" 1 1 1,
      ⟨"f", ⟨"a.c", 1, 5⟩, false, .function unary [0] true (some [])⟩,
      param "q" 3 1 3,
      ⟨"g", ⟨"a.c", 3, 5⟩, false, .function unary [2] true (some [])⟩,
      param "x" 5 1 7,
      param "y" 5 5 7,
      param "z" 5 9 7,
      ⟨"h", ⟨"a.c", 5, 13⟩, false,
        .function ⟨.int, [ptr, ptr, ptr], false, true⟩ [4, 5, 6] true (some body)⟩]
    exprs := #[.declRef 4, .intLiteral 1, .subscript 0 1, .declRef 1, .declRef 4, .call 3 [4],
      .declRef 3, .declRef 5, .call 6 [7], .intLiteral 1, .declRef 1, .declRef 3,
      .conditional 9 10 11, .declRef 6, .call 12 [13]]
    topLevel := [1, 3, 7] }

/-- Which of the two functions is called first decides which of them the last call passes its
argument to. -/
theorem analyse_reordered_threeArguments :
    ∃ u u' outcome outcome' s s', u.Reorders u' ∧
      (analyse [u]).Ends (.new .default) outcome s ∧
      (analyse [u']).Ends (.new .default) outcome' s' ∧
      (outcome.assignment.at? ⟨"a.c", 5, 9⟩).map (·.map Report.categories) = some [[.ptr]] ∧
      (outcome'.assignment.at? ⟨"a.c", 5, 9⟩).map (·.map Report.categories) = some [[.arr]] := by
  let body := [Stmt.expr 2, .expr 5, .expr 8, .expr 14]
  let body' := [Stmt.expr 2, .expr 8, .expr 5, .expr 14]
  have hbody : Stmt.Reorders body body' := by
    constructor
    · simp only [body, body', Stmt.unblocked]
      exact (List.Perm.swap _ _ _).cons _
    · simp only [body, body', Stmt.unblocked]
      rfl
  have hunit : (threeArguments body).Reorders (threeArguments body') := by
    refine ⟨rfl, rfl, rfl, rfl, ?_⟩
    simp only [threeArguments, List.forall₂_cons, List.Forall₂.nil, Decl.Reorders.refl, true_and,
      and_true]
    exact .body ⟨"h", ⟨"a.c", 5, 13⟩, false, .enumConstant 0⟩ hbody
  obtain ⟨outcome, s, h, hlook⟩ := exists_ends (x := analyse [threeArguments body])
    (s := .new .default)
    (g := fun o _ => (o.assignment.at? ⟨"a.c", 5, 9⟩).map (·.map Report.categories))
    (b := some [[.ptr]]) (by decide +kernel)
  obtain ⟨outcome', s', h', hlook'⟩ := exists_ends (x := analyse [threeArguments body'])
    (s := .new .default)
    (g := fun o _ => (o.assignment.at? ⟨"a.c", 5, 9⟩).map (·.map Report.categories))
    (b := some [[.arr]]) (by decide +kernel)
  exact ⟨_, _, outcome, outcome', s, s', hunit, h, h', hlook, hlook'⟩

end Session

end CheckedPointers
