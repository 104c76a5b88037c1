import CheckedPointers.Proofs.Session.Requests
import CheckedPointers.Proofs.Session.Walk

/-!
The two sides of a call. What it returns is looked up whenever its value is asked for, and where its
arguments go when it is visited; the two agree on the signature if the callee is named.
-/
namespace CheckedPointers

open Op

namespace Op

variable {α : Type} {s t : Session} {b : Bool}

/-- An attempt goes on from where its first part has ended. -/
theorem attempt_bind {x : Op α} {f : α → Op PUnit} {a : α} (h : x.Ends s a t) :
    attempt (x >>= f) s = attempt (f a) t := by
  rw [attempt_run, attempt_run, bind_run, h]

end Op

namespace FlowStep

variable {s : Session}

def deliver (u : TranslationUnit) : FlowStep → Op PUnit
  | expr _ => return ()
  | ret func value => do
    let returns ← Session.declaredReturns u func
    Session.flowInto u .body returns none value
  | init view var value => do
    let targets ← Session.denoteDecl u var view
    Session.flowInto u view targets (some var) value

/-- An attempt delivers its value and visits the nodes on its route one after another. -/
theorem run_eq (u : TranslationUnit) (step : FlowStep) :
    step.run u = step.deliver u >>= fun _ =>
      (u.route (Session.expressionLimit + 1) step.root).forM (Session.visitNode u step.view) := by
  rw [← Session.followWithin_eq]
  cases step with
  | expr e => rfl
  | ret func value => simp only [deliver, bind_assoc]; rfl
  | init view var value => simp only [deliver, bind_assoc]; rfl

theorem deliver_meets (u : TranslationUnit) (step : FlowStep) (hs : s.WellFormed) :
    Meets .visits (step.deliver u) s fun _ _ => True := by
  cases step with
  | expr _ => exact Meets.pure trivial
  | ret func value =>
    exact Meets.bind (Session.declaredReturns_recalls u func hs) fun targets t hst _ =>
      (Session.flowInto_meets u .body targets none value (hst.wellFormed hs)).any
  | init view var value =>
    exact Meets.bind (Session.denoteDecl_recalls u var view hs) fun targets t hst _ =>
      (Session.flowInto_meets u view targets (some var) value (hst.wellFormed hs)).any

end FlowStep

namespace Session

variable {options : Options} {u : TranslationUnit} {view : Viewpoint} {s t w : Session}
  {call callee : ExprId} {args : List ExprId} {f : FunctionVariable}

/-! ## Visits of nodes -/

/-- A visited node has what its kind demands. -/
theorem visitNode_meets (u : TranslationUnit) (view : Viewpoint) (p : Nat × ExprId)
    (hs : s.WellFormed) :
    Meets .visits (visitNode u view p) s fun _ t => Followed u view p.2 t := by
  obtain ⟨n, e⟩ := p
  cases n with
  | zero => exact Meets.unresolved
  | succ n => exact Meets.bind_lift fun x hx => followNode_meets u view hx hs

theorem forM_split {α : Type} (g : α → Op PUnit) (before : List α) (a : α) (after : List α) :
    (before ++ a :: after).forM g = before.forM g >>= fun _ => g a >>= fun _ => after.forM g := by
  simp only [List.forM_eq_forM, List.forM_append, List.forM_cons]

theorem visitNodes_meets (u : TranslationUnit) (view : Viewpoint) (ps : List (Nat × ExprId))
    (hs : s.WellFormed) :
    Meets .visits (ps.forM (visitNode u view)) s fun _ _ => True := by
  refine (Meets.forM (P := fun _ _ => True) (fun _ _ _ _ h => h) fun p _ t hst => ?_).any
  have hst : s.Visits t := hst
  exact (visitNode_meets u view p (hst.wellFormed hs)).any

/-- The visit of a unit up to some node: the attempts `pre`, and of the next one what it delivers
and the nodes `before`. -/
def untilNode (u : TranslationUnit) (pre : List FlowStep) (step : FlowStep)
    (before : List (Nat × ExprId)) : Op PUnit := do
  attemptAll u pre
  step.deliver u
  before.forM (visitNode u step.view)

/-- From where a visit of a unit has ended with a node it goes on. -/
theorem visits_of_untilNode {pre post : List FlowStep} {step : FlowStep}
    {before after : List (Nat × ExprId)} {p : Nat × ExprId} {s₁ s₂ : Session}
    (hs : s.WellFormed) (hall : (attemptAll u (pre ++ step :: post)).Ends s ⟨⟩ t)
    (hroute : u.route (expressionLimit + 1) step.root = before ++ p :: after)
    (huntil : (untilNode u pre step before).Ends s ⟨⟩ s₁)
    (hvisit : (visitNode u step.view p).Ends s₁ ⟨⟩ s₂) :
    s₁.WellFormed ∧ s₁.Visits s₂ ∧ s₂.Visits t := by
  obtain ⟨_, r, hpre, huntil⟩ := ends_bind.1 huntil
  obtain ⟨_, d, hdeliver, hbefore⟩ := ends_bind.1 huntil
  obtain ⟨r', hpre', hpost⟩ := (attemptAll_append u pre (step :: post)).1 hall
  obtain rfl := (hpre.unique hpre').2
  obtain ⟨b, r', hstep, hpost⟩ := (attemptAll_cons u step post).1 hpost
  have hr : s.Visits r := ((attemptAll_meets u pre hs).of_ends hpre).1
  have hd : r.Visits d := ((step.deliver_meets u (hr.wellFormed hs)).of_ends hdeliver).1
  have h₁ : d.Visits s₁ :=
    ((visitNodes_meets u step.view before ((hr.trans hd).wellFormed hs)).of_ends hbefore).1
  have hs₁ := ((hr.trans hd).trans h₁).wellFormed hs
  have h₂ : s₁.Visits s₂ := ((visitNode_meets u step.view p hs₁).of_ends hvisit).1
  have hs₂ := h₂.wellFormed hs₁
  -- what is left of the attempt starts where the node was left
  have hrest : (attempt (after.forM (visitNode u step.view))).Ends s₂ b r' := by
    unfold Ends at hstep ⊢
    rwa [FlowStep.run_eq, hroute, forM_split, attempt_bind hdeliver, attempt_bind hbefore,
      attempt_bind hvisit] at hstep
  have h₃ : s₂.Visits r' := (visitNodes_meets u step.view after hs₂).rel_of_attempt hrest
  have h₄ : r'.Visits t :=
    ((attemptAll_meets u post (h₃.wellFormed hs₂)).of_ends hpost).1
  exact ⟨hs₁, h₂, h₃.trans h₄⟩

/-! ## What a call denotes -/

/-- The returns of a signature are what the value of a call denotes: the last signature that a
named callee denotes and every signature that a computed one does, seen from the declaration. -/
inductive DrawsOn (u : TranslationUnit) (call callee : ExprId) (t : Session)
    (f : FunctionVariable) : Prop where
  | named {target : DeclId} {found : VarSet} (htarget : u.namedCallee call = .ok (some target))
      (hfound : Replays .visits (denoteDecl u target .declaration) found t)
      (hlast : (found.members.filterMap t.arena.reachableFunction?).getLast? = some f) :
      DrawsOn u call callee t f
  | computed {callees : VarSet} (htarget : u.namedCallee call = .ok none)
      (hcallees : Replays .visits (denoteWithin u expressionLimit callee .declaration) callees t)
      (hmem : f ∈ callees.members.filterMap t.arena.reachableFunction?) : DrawsOn u call callee t f

/-- What a call denotes are the returns of the signatures that it draws on, or the variable that
stands for an unknown callee. -/
theorem denote_call_draws {set : VarSet} (hs : s.WellFormed)
    (hx : u.expr call = .ok (.call callee args)) (h : (denote u call view).Ends s set t) :
    (∀ f, DrawsOn u call callee t f → ∀ v ∈ f.returns, v ∈ set) ∧
      ∀ v ∈ set, (∃ f, DrawsOn u call callee t f ∧ v ∈ f.returns) ∨
        Replays .visits (unknownCallee u call) v t := by
  obtain ⟨_, s₁, hopen, hends⟩ := ends_bind.1 h
  have hsame : Meets .visits (requireOpen u) s fun _ t => t = s :=
    Meets.bind_current fun _ _ => Meets.pure rfl
  obtain rfl := (hsame.of_ends hopen).2
  rw [denoteWithin] at hends
  obtain ⟨x, s₁, hlift, hends⟩ := ends_bind.1 hends
  obtain ⟨hx', rfl⟩ := ends_lift.1 hlift
  obtain rfl := Except.ok.inj (hx.symm.trans hx')
  obtain ⟨target, s₁, hlift, hends⟩ := ends_bind.1 hends
  obtain ⟨htarget, rfl⟩ := ends_lift.1 hlift
  cases target with
  | some target =>
    obtain ⟨d, s₁, hlift, hends⟩ := ends_bind.1 hends
    obtain ⟨-, rfl⟩ := ends_lift.1 hlift
    split at hends
    · exact absurd hends not_ends_unresolved
    · obtain ⟨found, t₁, hfound, hends⟩ := ends_bind.1 hends
      obtain ⟨hst, hholds, hfound⟩ := (denoteDecl_recalls u target .declaration hs).of_ends hfound
      have ht₁ := hst.wellFormed hs
      obtain ⟨_, _, hget, hends⟩ := ends_bind.1 hends
      obtain ⟨rfl, rfl⟩ := ends_get.1 hget
      dsimp only at hends
      have hdraws : ∀ t, t₁.Visits t → ∀ f, DrawsOn u call callee t f →
          (found.members.filterMap t₁.arena.reachableFunction?).getLast? = some f := by
        intro t ht f hf
        cases hf with
        | named htarget' hfound' hlast =>
          obtain rfl := Option.some.inj (Except.ok.inj (htarget.symm.trans htarget'))
          obtain rfl := ((hfound t ht).unique (hfound' t (.refl t))).1
          rwa [reachableFunctions_eq ht₁ hholds ht.toExtends] at hlast
        | computed htarget' => cases htarget.symm.trans htarget'
      split at hends
      · next f hlast =>
        obtain ⟨rfl, rfl⟩ := ends_pure.1 hends
        refine ⟨fun f' hf' => ?_, fun v hv => .inl ⟨f, .named htarget hfound hlast, hv⟩⟩
        obtain rfl := Option.some.inj (hlast.symm.trans (hdraws _ (.refl _) f' hf'))
        exact fun _ => id
      · next hnone =>
        obtain ⟨v, t₂, hunknown, hends⟩ := ends_bind.1 hends
        obtain ⟨rfl, rfl⟩ := ends_pure.1 hends
        obtain ⟨ht, -, hunknown⟩ := (unknownCallee_recalls u call ht₁).of_ends hunknown
        refine ⟨fun f hf => ?_, fun w hw => .inr ?_⟩
        · rw [hdraws _ ht f hf] at hnone
          cases hnone
        · rwa [(VarSet.mem_singleton _ _).1 hw]
  | none =>
    obtain ⟨callees, t₁, hcallees, hends⟩ := ends_bind.1 hends
    obtain ⟨-, -, hcallees⟩ := (denoteWithin_recalls u _ callee .declaration hs).of_ends hcallees
    obtain ⟨_, _, hget, hends⟩ := ends_bind.1 hends
    obtain ⟨rfl, rfl⟩ := ends_get.1 hget
    obtain ⟨rfl, rfl⟩ := ends_pure.1 hends
    simp only [returnsOf, VarSet.mem_ofList, List.mem_flatMap]
    refine ⟨fun f hf v hv => ?_, fun v ⟨f, hf, hv⟩ => .inl ⟨f, .computed htarget hcallees hf, hv⟩⟩
    cases hf with
    | named htarget' => cases htarget.symm.trans htarget'
    | computed _ hcallees' hmem =>
      obtain rfl := ((hcallees _ (.refl _)).unique (hcallees' _ (.refl _))).1
      exact ⟨f, hmem, hv⟩

/-- The arguments of a call go to the last signature that its callee denotes, a computed one as it
is seen from the call. -/
def PassedTo (u : TranslationUnit) (view : Viewpoint) (call callee : ExprId) (t : Session)
    (f : FunctionVariable) : Prop :=
  ∃ candidates, Replays .visits (calleeVariables u view call callee) candidates t ∧
    (candidates.members.filterMap t.arena.reachableFunction?).getLast? = some f

/-- Where a named callee can be looked up, arguments go to the signature that the value of the call
draws on. -/
theorem DrawsOn.passedTo {target : DeclId} {candidates : VarSet} (h : DrawsOn u call callee t f)
    (htarget : u.namedCallee call = .ok (some target))
    (hcandidates : Replays .visits (calleeVariables u view call callee) candidates t) :
    PassedTo u view call callee t f := by
  refine ⟨candidates, hcandidates, ?_⟩
  cases h with
  | named htarget' hfound hlast =>
    obtain rfl := Option.some.inj (Except.ok.inj (htarget.symm.trans htarget'))
    have hends := hcandidates t (.refl t)
    rw [calleeVariables, htarget, lift_ok_bind] at hends
    obtain ⟨d, _, hlift, hends⟩ := ends_bind.1 hends
    obtain ⟨-, rfl⟩ := ends_lift.1 hlift
    split at hends
    · obtain rfl := (hends.unique (hfound _ (.refl _))).1
      exact hlast
    · exact absurd hends not_ends_unresolved
  | computed htarget' => cases htarget.symm.trans htarget'

/-- A computed callee that denotes something makes its call denote what that returns. -/
theorem denote_call_ends {o : OpenUnit} {callees : VarSet} (ho : IsOpen u o s)
    (hx : u.expr call = .ok (.call callee args)) (htarget : u.namedCallee call = .ok none)
    (h : (denoteWithin u expressionLimit callee .declaration).Ends s callees t) :
    (denote u call view).Ends s (returnsOf t.arena callees) t := by
  refine ends_bind.2 ⟨⟨⟩, s, ends_bind.2 ⟨o, s, ends_current ho, ends_pure.2 ⟨rfl, rfl⟩⟩, ?_⟩
  rw [denoteWithin, hx, lift_ok_bind]
  dsimp only
  rw [htarget, lift_ok_bind]
  exact ends_bind.2 ⟨callees, t, h, ends_bind.2 ⟨t, t, ends_get.2 ⟨rfl, rfl⟩, ends_pure.2 ⟨rfl, rfl⟩⟩⟩

/-- In whatever session a unit is followed: what a call hands over, if its visit ends and it calls no
allowed external function. Where the callee is named, each argument agrees, in every solution from
then on, with the slot at its place of every signature that the value of the call draws on, and is
wild where that has no slot. So it does where the callee is computed, of a signature that is the
last one which the callee denotes as it is seen from the call. -/
theorem Reachable.flow_passes_arguments {summary : FlowSummary}
    (hs : Reachable options s) (hflow : (flow u).Ends s summary t) :
    ∃ steps, u.steps = .ok steps ∧ ∀ pre step post, steps = pre ++ step :: post →
      ∀ before p after, u.route (expressionLimit + 1) step.root = before ++ p :: after →
        ∀ s₁ s₂, (untilNode u pre step before).Ends s ⟨⟩ s₁ →
          (visitNode u step.view p).Ends s₁ ⟨⟩ s₂ →
            ∀ callee args, u.expr p.2 = .ok (.call callee args) → ¬ u.AllowedCall options p.2 →
              ∀ view value t', (denote u p.2 view).Ends t value t' →
                ∀ rs w, (Session.requests rs).Ends t' ⟨⟩ w →
                  ∀ f, DrawsOn u p.2 callee t' f →
                    ((∃ target, u.namedCallee p.2 = .ok (some target)) ∨
                      PassedTo u step.view p.2 callee t' f) →
                      Passes u step.view w.solver.solve.verdict f.params args t' := by
  obtain ⟨steps, hsteps, hattempts⟩ := ends_flow hflow
  refine ⟨steps, hsteps, ?_⟩
  rintro pre step post rfl before p after hroute s₁ s₂ huntil hvisit callee args hx hnot view value
    t' hvalue rs w hlater f hdraws hwhich
  obtain ⟨hs₁, h₁₂, h₂⟩ := visits_of_untilNode hs.wellFormed hattempts hroute huntil hvisit
  have hs₂ := h₁₂.wellFormed hs₁
  have ht : Reachable options t := hs.request (b := true) (.flow u)
    (ends_attempt.2 (.inl ⟨rfl, ends_discard.2 ⟨summary, hflow⟩⟩))
  have ht' : Reachable options t' := ht.request (b := true) (.denote u p.2 view)
    (ends_attempt.2 (.inl ⟨rfl, ends_discard.2 ⟨value, hvalue⟩⟩))
  have htt' : t.Visits t' := ((denote_recalls u p.2 view ht.wellFormed).of_ends hvalue).1
  have h₂' : s₂.Visits t' := h₂.trans htt'
  have hlast : s₂.solver.Grows w.solver :=
    h₂'.solver.trans (extends_of_requests ht' hlater).solver
  have hsolved : s₂.solver.verdict.Implies w.solver.solve.verdict :=
    hlast.verdict.trans (ht'.requests hlater).wellFormed.solver.verdict
  have hfollowed := ((visitNode_meets u step.view p hs₁).of_ends hvisit).2
  have hpassed : PassesCall u step.view w.solver.solve.verdict p.2 callee args t' :=
    (hfollowed.transfers _ hx).visits hs₂ h₂' hsolved
  cases hpassed with
  | allowed h => exact absurd (ht'.options_eq ▸ h) hnot
  | passed hcallee _ hargs =>
    have hlast : PassedTo u step.view p.2 callee t' f := by
      rcases hwhich with ⟨target, htarget⟩ | hlast
      · exact hdraws.passedTo htarget hcallee
      · exact hlast
    obtain ⟨candidates, hcandidates, hlast⟩ := hlast
    obtain rfl := ((hcallee t' (.refl t')).unique (hcandidates t' (.refl t'))).1
    exact hargs f hlast

/-- A parameter that is subscripted and then passed to one of two functions, neither of which has a
prototype. -/
def conditionalCallee : TranslationUnit :=
  let ptr : CType := .pointer .int
  let unary (ret : CType) : Signature := ⟨ret, [ptr], false, true⟩
  { id := 0
    file := "a.c"
    decls := #[
      ⟨"p", ⟨"a.c", 1, 1⟩, false, .param ptr (some 1) none⟩,
      ⟨"f", ⟨"a.c", 1, 5⟩, false, .function (unary ptr) [0] true (some [])⟩,
      ⟨"q", ⟨"a.c", 3, 1⟩, false, .param ptr (some 3) none⟩,
      ⟨"g", ⟨"a.c", 3, 5⟩, false, .function (unary ptr) [2] true (some [])⟩,
      ⟨"r", ⟨"a.c", 5, 1⟩, false, .param ptr (some 5) none⟩,
      ⟨"h", ⟨"a.c", 5, 5⟩, false, .function (unary .int) [4] true (some [.expr 2, .expr 8])⟩]
    exprs := #[.declRef 4, .intLiteral 1, .subscript 0 1, .intLiteral 1, .declRef 1, .declRef 3,
      .conditional 3 4 5, .declRef 4, .call 6 [7]]
    topLevel := [1, 3, 5] }

def conditionalCalleeIndexed : List Request :=
  .enter conditionalCallee :: [1, 3, 5].flatMap (fun func =>
    [.giveVariables conditionalCallee func, .noteFunction conditionalCallee func]) ++
    [.exit, .enter conditionalCallee]

/-- No call in the unit is one of an allowed external function. -/
theorem conditionalCallee_allows_none (e : ExprId) :
    ¬ conditionalCallee.AllowedCall Options.default e := by
  intro hallowed
  have hnames : ∀ d ∈ conditionalCallee.decls, ¬ Options.default.allows d.name := by decide +kernel
  induction hallowed with
  | call _ _ hd _ hallowed =>
    exact hnames _ (Array.mem_of_getElem? (TranslationUnit.decl_eq_ok.1 hd)) hallowed
  | converted _ _ _ ih => exact ih

def conditionalCalleeAsked : Op VarSet := do
  requests conditionalCalleeIndexed
  discard (flow conditionalCallee)
  denoteWithin conditionalCallee expressionLimit 6 .declaration

def conditionalCalleeVisited : Op PUnit := do
  requests conditionalCalleeIndexed
  untilNode conditionalCallee [.expr 2] (.expr 8) []
  visitNode conditionalCallee .body (expressionLimit + 1, 8)

theorem conditionalCallee_steps : conditionalCallee.steps = .ok ([.expr 2] ++ .expr 8 :: []) := by
  have hsteps : conditionalCallee.steps.toOption = some ([.expr 2] ++ .expr 8 :: []) := by
    decide +kernel
  cases h : conditionalCallee.steps with
  | error e => rw [h] at hsteps; cases hsteps
  | ok steps => rw [h] at hsteps; rw [Option.some.inj hsteps]

/-- Both signatures are among what the callee denotes, that of the second function is the last and
is passed the argument. That is variable 7, and it has bounds. -/
theorem conditionalCallee_runs :
    ∃ s summary t value t' s₁ s₂ callees f g, Reachable .default s ∧
      (flow conditionalCallee).Ends s summary t ∧
      (untilNode conditionalCallee [.expr 2] (.expr 8) []).Ends s ⟨⟩ s₁ ∧
      (visitNode conditionalCallee .body (expressionLimit + 1, 8)).Ends s₁ ⟨⟩ s₂ ∧
      (denote conditionalCallee 8 .body).Ends t value t' ∧
      Replays .visits (denoteWithin conditionalCallee expressionLimit 6 .declaration) callees t' ∧
      Replays .visits (calleeVariables conditionalCallee .body 8 6) callees t' ∧
      callees.members.filterMap t'.arena.reachableFunction? = [f, g] ∧
      f.params = [.singleton 10] ∧ g.params = [.singleton 13] ∧
      (denote conditionalCallee 7 .body t').1.toOption = some (.singleton 7) ∧
      [7, 10, 13].map (fun v => (t'.arena.pointer? v).map PointerVariable.atoms) =
        [some [4], some [6], some [8]] ∧
      [4, 6, 8].map t'.solver.solve.category = [.arr, .ptr, .arr] := by
  obtain ⟨_, s₂, hvisited, -⟩ := exists_ends (x := conditionalCalleeVisited) (s := .new .default)
    (g := fun _ _ => ()) (b := ()) (by decide +kernel)
  obtain ⟨_, s, hrequests, hvisited⟩ := ends_bind.1 hvisited
  obtain ⟨_, s₁, huntil, hvisit⟩ := ends_bind.1 hvisited
  obtain ⟨callees, t', hasked, hlook⟩ := exists_ends (x := conditionalCalleeAsked)
    (s := .new .default)
    (g := fun callees t =>
      (callees.members.filterMap t.arena.reachableFunction?).map FunctionVariable.params =
          [[.singleton 10], [.singleton 13]] &&
        (denote conditionalCallee 7 .body t).1.toOption = some (.singleton 7) &&
        (calleeVariables conditionalCallee .body 8 6 t).1.toOption = some callees &&
        ([7, 10, 13].map fun v => (t.arena.pointer? v).map PointerVariable.atoms) =
          [some [4], some [6], some [8]] &&
        [4, 6, 8].map t.solver.solve.category = [.arr, .ptr, .arr])
    (b := true) (by decide +kernel)
  obtain ⟨_, s', hrequests', hasked⟩ := ends_bind.1 hasked
  obtain rfl := (hrequests.unique hrequests').2
  obtain ⟨_, t, hflow, hcallees⟩ := ends_bind.1 hasked
  obtain ⟨summary, hflow⟩ := ends_discard.1 hflow
  simp only [Bool.and_eq_true, decide_eq_true_eq] at hlook
  obtain ⟨⟨⟨⟨hsignatures, harg⟩, hcallee⟩, hatoms⟩, hsolved⟩ := hlook
  obtain ⟨f, fs, hfs, hf, hrest⟩ := List.map_eq_cons_iff.1 hsignatures
  obtain ⟨g, gs, rfl, hg, hrest⟩ := List.map_eq_cons_iff.1 hrest
  obtain rfl := List.map_eq_nil_iff.1 hrest
  have hs : Reachable .default s := Reachable.new.requests hrequests
  obtain ⟨steps, hsteps, hattempts⟩ := ends_flow hflow
  obtain rfl := Except.ok.inj (conditionalCallee_steps.symm.trans hsteps)
  obtain ⟨hs₁, h₁₂, h₂⟩ := visits_of_untilNode hs.wellFormed hattempts rfl huntil hvisit
  have hst : s.Visits t := ((flow_meets _ hs.wellFormed).of_ends hflow).1
  obtain ⟨htt', -, hreplays⟩ :=
    (denoteWithin_recalls _ _ 6 .declaration (hst.wellFormed hs.wellFormed)).of_ends hcallees
  -- the visit has asked for the callee before
  have hpasses : Replays .visits (calleeVariables conditionalCallee .body 8 6) callees t' := by
    have hfollowed := ((visitNode_meets _ .body _ hs₁).of_ends hvisit).2
    have hpassed := hfollowed.transfers (.call 6 [7]) rfl
    have hsame : t'.options = .default := (hst.trans htt').options.trans hs.options_eq
    cases PassesCall.visits hpassed (h₁₂.wellFormed hs₁) (h₂.trans htt')
      ⟨fun _ _ => id, fun _ => id⟩ with
    | allowed h => exact absurd (hsame ▸ h) (conditionalCallee_allows_none 8)
    | passed hcallee' => rwa [hcallee'.eq_of_run hcallee] at hcallee'
  obtain ⟨_, s', hrequests', hopened⟩ := exists_ends (x := requests conditionalCalleeIndexed)
    (s := .new .default) (g := fun _ s => s.opened.map fun o => (o.id, o.file))
    (b := some (0, "a.c")) (by decide +kernel)
  obtain rfl := (hrequests.unique hrequests').2
  obtain ⟨o, ho, hid⟩ := Option.map_eq_some_iff.1 hopened
  obtain ⟨o, ho, -⟩ := IsOpen.visits (u := conditionalCallee) ⟨ho, Prod.mk.inj hid⟩ hst
  exact ⟨s, summary, t, _, t', s₁, s₂, callees, f, g, hs, hflow, huntil, hvisit,
    denote_call_ends ho rfl rfl hcallees, hreplays, hpasses, hfs, hf, hg, harg, hatoms, hsolved⟩

/-- The argument agrees with the parameter of the second function. -/
theorem Reachable.flow_passes_arguments_lastCallee :
    ∃ s summary t w, Reachable .default s ∧ (flow conditionalCallee).Ends s summary t ∧
      t.Visits w ∧ w.arena.Coincide w.solver.solve.verdict.same 13 7 := by
  obtain ⟨s, summary, t, value, t', s₁, s₂, callees, f, g, hs, hflow, huntil, hvisit, hvalue,
    hcallees, hpasses, hsignatures, -, hg, harg, -⟩ := conditionalCallee_runs
  have ht := ((flow_meets _ hs.wellFormed).of_ends hflow).1.wellFormed hs.wellFormed
  obtain ⟨steps, hsteps, hall⟩ := hs.flow_passes_arguments hflow
  obtain rfl := Except.ok.inj (conditionalCallee_steps.symm.trans hsteps)
  have hdraws : DrawsOn conditionalCallee 8 6 t' g :=
    .computed rfl hcallees (hsignatures ▸ List.mem_cons_of_mem f List.mem_cons_self)
  have hpass := hall [.expr 2] (.expr 8) [] rfl [] (expressionLimit + 1, 8) _ rfl s₁ s₂ huntil hvisit
    6 [7] rfl (conditionalCallee_allows_none 8) .body value t' hvalue [] t'
    (ends_pure.2 ⟨rfl, rfl⟩) g hdraws (.inr ⟨callees, hpasses, by rw [hsignatures]; rfl⟩)
  obtain ⟨values, hvalues, hsame, -⟩ := hpass 0 7 rfl
  obtain rfl := hvalues.eq_of_run harg
  refine ⟨s, summary, t, t', hs, hflow, ((denote_recalls _ 8 .body ht).of_ends hvalue).1, ?_⟩
  exact hsame _ (by rw [hg]; rfl) 13 ((VarSet.mem_singleton 13 13).2 rfl) 7
    ((VarSet.mem_singleton 7 7).2 rfl)

/-- The value of the call draws on the first function too, and what is passed does not agree with the
parameter of that. -/
theorem flow_misses_firstCallee :
    ∃ s summary t value t' s₁ s₂ after f, Reachable .default s ∧
      (flow conditionalCallee).Ends s summary t ∧
      conditionalCallee.steps = .ok ([.expr 2] ++ .expr 8 :: []) ∧
      conditionalCallee.route (expressionLimit + 1) 8 = [] ++ (expressionLimit + 1, 8) :: after ∧
      (untilNode conditionalCallee [.expr 2] (.expr 8) []).Ends s ⟨⟩ s₁ ∧
      (visitNode conditionalCallee .body (expressionLimit + 1, 8)).Ends s₁ ⟨⟩ s₂ ∧
      conditionalCallee.expr 8 = .ok (.call 6 [7]) ∧
      ¬ conditionalCallee.AllowedCall .default 8 ∧
      (denote conditionalCallee 8 .body).Ends t value t' ∧
      DrawsOn conditionalCallee 8 6 t' f ∧
      ¬ Passes conditionalCallee .body t'.solver.solve.verdict f.params [7] t' := by
  obtain ⟨s, summary, t, value, t', s₁, s₂, callees, f, g, hs, hflow, huntil, hvisit, hvalue,
    hcallees, -, hsignatures, hf, -, harg, hatoms, hsolved⟩ := conditionalCallee_runs
  refine ⟨s, summary, t, value, t', s₁, s₂, _, f, hs, hflow, conditionalCallee_steps, rfl, huntil,
    hvisit, rfl, conditionalCallee_allows_none 8, hvalue,
    .computed rfl hcallees (hsignatures ▸ List.mem_cons_self), fun hpass => ?_⟩
  obtain ⟨values, hvalues, hsame, -⟩ := hpass 0 7 rfl
  obtain rfl := hvalues.eq_of_run harg
  simp only [List.map_cons, List.map_nil, List.cons.injEq, and_true, Option.map_eq_some_iff]
    at hatoms hsolved
  obtain ⟨⟨r, hr, hratoms⟩, ⟨p, hp, hpatoms⟩, -⟩ := hatoms
  obtain ⟨hrarr, hpptr, -⟩ := hsolved
  have hagree := hsame _ (by rw [hf]; rfl) 10 ((VarSet.mem_singleton 10 10).2 rfl) 7
    ((VarSet.mem_singleton 7 7).2 rfl)
  have hlevel := hagree.levels t'.solver.solve.equivalence_same hp hr (i := 0)
    (by rw [hpatoms]; rfl) (by rw [hratoms]; rfl)
  exact absurd (hpptr.symm.trans (Eq.trans hlevel hrarr)) (by decide)

end Session

end CheckedPointers
