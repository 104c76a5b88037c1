import CheckedPointers.Proofs.Session.Sources
import Mathlib.Tactic.IntervalCases

/-!
Allocations stay separate. A call of an allowed external function is passed over where it is a whole
value, so its function is looked up for an equation only where a call is part of something larger;
and what no lookup finds is equated with nothing, since what is remembered is parted.
-/
namespace CheckedPointers

open Op

namespace TranslationUnit

variable {u : TranslationUnit} {options : Options}

def IsFunctionNamed (u : TranslationUnit) (name : String) (d : DeclId) : Prop :=
  ∃ decl, u.decl d = .ok decl ∧ decl.isFunction ∧ decl.name = name

/-- The unit names the functions of that name only to call them. -/
def OnlyCalls (u : TranslationUnit) (name : String) : Prop :=
  ∀ e x d, u.expr e = .ok x → x.target? = some d → u.IsFunctionNamed name d →
    (∃ call args, u.expr call = .ok (.call e args)) ∧
      ∀ parent y, u.expr parent = .ok y → e ∈ y.operands → ∃ args, y = .call e args ∧ e ∉ args

/-- A call by name of an allowed external function is an allowed call. -/
theorem isAllowedCall_of_named {name : String} {call callee : ExprId} {args : List ExprId}
    {target : DeclId} (hx : u.expr call = .ok (.call callee args))
    (htarget : u.namedCallee call = .ok (some target)) (hnamed : u.IsFunctionNamed name target)
    (hallowed : options.allows name) : u.isAllowedCall options call = .ok true := by
  obtain ⟨decl, hd, hfunction, rfl⟩ := hnamed
  have huncast : u.uncast call = .ok call := unwrapWithin_core hx rfl
  rw [isAllowedCall, huncast]
  simp only [bind, Except.bind, hx, htarget, hd, hfunction, hallowed]
  rfl

def HasInit (u : TranslationUnit) : FlowStep → Prop
  | .init _ var value => ∃ d, u.decl var = .ok d ∧ d.init? = some value
  | _ => True

/-- Each attempt of a body that initializes something has the initializer of a declaration. -/
theorem hasInit_of_mem_stmtsSteps {func : DeclId} {sts : List Stmt} {steps : List FlowStep}
    {step : FlowStep} (h : u.stmtsSteps func sts = .ok steps) (hstep : step ∈ steps) :
    u.HasInit step := by
  induction sts generalizing steps with
  | nil =>
    cases h
    exact absurd hstep List.not_mem_nil
  | cons st rest ih =>
    obtain ⟨first, hfirst, h⟩ := bind_eq_ok.1 h
    obtain ⟨others, hothers, h⟩ := bind_eq_ok.1 h
    cases h
    rcases List.mem_append.1 hstep with hstep | hstep
    · cases st with
      | expr e =>
        cases hfirst
        rw [List.mem_singleton.1 hstep]
        trivial
      | ret value =>
        cases value with
        | some value =>
          cases hfirst
          rw [List.mem_singleton.1 hstep]
          trivial
        | none =>
          cases hfirst
          exact absurd hstep List.not_mem_nil
      | block _ =>
        cases hfirst
        exact absurd hstep List.not_mem_nil
      | decl d =>
        obtain ⟨decl, hd, hfirst⟩ := bind_eq_ok.1 hfirst
        split at hfirst
        · next init hinit =>
          cases hfirst
          rw [List.mem_singleton.1 hstep]
          exact ⟨decl, hd, hinit⟩
        · cases hfirst
          exact absurd hstep List.not_mem_nil
    · exact ih hothers hstep

/-- Each attempt of a unit that initializes something has the initializer of a declaration. -/
theorem hasInit_of_mem_steps {steps : List FlowStep} {step : FlowStep} (h : u.steps = .ok steps)
    (hstep : step ∈ steps) : u.HasInit step := by
  unfold TranslationUnit.steps at h
  generalize u.topLevel = ids at h
  induction ids generalizing steps with
  | nil =>
    cases h
    exact absurd hstep List.not_mem_nil
  | cons id rest ih =>
    obtain ⟨first, hfirst, h⟩ := bind_eq_ok.1 h
    obtain ⟨others, hothers, h⟩ := bind_eq_ok.1 h
    cases h
    rcases List.mem_append.1 hstep with hstep | hstep
    · obtain ⟨d, hd, hfirst⟩ := bind_eq_ok.1 hfirst
      split at hfirst
      · next init hinit =>
        cases hfirst
        rw [List.mem_singleton.1 hstep]
        exact ⟨d, hd, hinit⟩
      · exact hasInit_of_mem_stmtsSteps hfirst hstep
      · cases hfirst
        exact absurd hstep List.not_mem_nil
    · exact ih hstep hothers

end TranslationUnit

namespace Session

variable {options : Options} {u : TranslationUnit} {view : Viewpoint} {s t : Session} {v r : VarId}

/-! ## What lookups find -/

/-- It is remembered itself, or a parameter of a signature made on demand. -/
def Reached (s : Session) (v : VarId) : Prop :=
  s.Rooted v ∨ ∃ f, s.OnDemand f ∧ s.arena.ParameterOf v f

theorem storedFor_reaches (d : DeclId) (s : Session) :
    Meets .visits (storedFor u d) s fun set t => ∀ v ∈ set, t.Reached v :=
  Meets.bind_get (Meets.bind_lift fun decl _ => Meets.pure fun _ hv => .inl (.inl ⟨decl.anchor, hv⟩))

theorem storedParam_reaches (func : DeclId) (i : Nat) (s : Session) :
    Meets .visits (storedParam u func i) s fun set t => ∀ v ∈ set, t.Reached v := by
  refine Meets.bind_lift fun d _ => ?_
  split
  · exact storedFor_reaches _ s
  · exact Meets.pure fun v hv => absurd hv (VarSet.not_mem_empty v)

theorem implicitPrototype_onDemand (func : DeclId) (hs : s.WellFormed) :
    Meets .visits (implicitPrototype u func) s fun set t => ∀ v ∈ set, t.OnDemand v :=
  Meets.mono (implicitPrototype_recalls u func hs)
    fun _ _ _ ⟨⟨_, _, _, hset⟩, _⟩ _ hv => .signature hset hv

/-- Parameters of signatures on demand are reached. -/
theorem reached_of_slotsOf {functions : VarSet} {i : Nat} (h : ∀ v ∈ functions, s.OnDemand v)
    (hv : v ∈ slotsOf s.arena i functions) : s.Reached v := by
  rw [slotsOf, VarSet.mem_ofList, List.mem_flatMap] at hv
  obtain ⟨w, hw, hv⟩ := hv
  cases hslot : (s.arena.function? w).bind fun f => f.params[i]? with
  | none =>
    rw [hslot] at hv
    cases hv
  | some slot =>
    obtain ⟨f, hf, hi⟩ := Option.bind_eq_some_iff.1 hslot
    rw [hslot] at hv
    exact .inr ⟨w, h w hw, f, hf, slot, List.mem_of_getElem? hi, hv⟩

/-- Whatever a parameter denotes is reached. -/
theorem denoteParam_reaches (owner : DeclId) (i : Nat) (view : Viewpoint) (hs : s.WellFormed) :
    Meets .visits (denoteParam u owner i view) s fun set t => ∀ v ∈ set, t.Reached v := by
  cases view with
  | body =>
    refine Meets.bind_lift fun definition _ => ?_
    split
    · exact storedParam_reaches _ i s
    · exact Meets.bind_lift fun _ _ => Meets.unresolved
  | declaration =>
    refine Meets.bind_lift fun declaration _ => ?_
    split
    · exact storedParam_reaches _ i s
    · refine Meets.bind (implicitPrototype_onDemand owner hs) fun functions t _ hfunctions => ?_
      exact Meets.bind_get (Meets.pure fun v hv => reached_of_slotsOf hfunctions hv)

/-- Whatever a declaration denotes is reached. -/
theorem denoteDecl_reaches (d : DeclId) (view : Viewpoint) (hs : s.WellFormed) :
    Meets .visits (denoteDecl u d view) s fun set t => ∀ v ∈ set, t.Reached v := by
  refine Meets.bind_requireOpen fun _ _ => Meets.bind_lift fun decl _ => Meets.bind_get ?_
  split
  · exact Meets.pure fun v hv => absurd hv (VarSet.not_mem_empty v)
  · split
    · refine Meets.bind_lift fun prototype _ => ?_
      split
      · exact storedFor_reaches _ s
      · exact (implicitPrototype_onDemand d hs).mono fun _ _ _ h v hv => .inl (.inr (h v hv))
    · split
      · refine Meets.bind_lift fun position _ => ?_
        split
        · exact denoteParam_reaches _ _ view hs
        · exact Meets.unresolved
      · exact Meets.bind_get (Meets.pure fun v hv => .inl (.inl ⟨decl.anchor, hv⟩))

theorem reached_of_lookup {l : Lookup} {set : VarSet} (hs : s.WellFormed)
    (h : (l.run u).Ends s set t) : ∀ v ∈ set, t.Reached v := by
  cases l with
  | denoted view d => exact ((denoteDecl_reaches d view hs).of_ends h).2
  | stored d => exact ((storedFor_reaches d s).of_ends h).2

/-! ## What is apart -/

def IsSignature (s : Session) (v : VarId) : Prop :=
  s.arena.isFunction v ∧ ((∃ anchor, v ∈ s.storedAt anchor) ∨
    ∃ key set, s.implicits.find? key = some set ∧ v ∈ set)

theorem IsSignature.rooted (h : s.IsSignature v) : s.Rooted v :=
  h.2.imp id fun ⟨_, _, hset, hv⟩ => .signature hset hv

/-- A signature shares atoms with nothing that is found but itself and its parameters. -/
theorem Parted.not_shares (hp : s.Parted) (hs : s.WellFormed) (hv : s.IsSignature v)
    (hr : s.Reached r) (hne : r ≠ v) (hparam : ¬ s.arena.ParameterOf r v) :
    ¬ s.arena.Shares r v := by
  intro hshares
  rcases hr with hr | ⟨f, hf, hrf⟩
  · rcases hr with ⟨anchor, hr⟩ | hr
    · rcases hv.2 with ⟨anchor', hv'⟩ | ⟨key, set, hset, hv'⟩
      · rcases hp.stored _ _ r hr v hv' hshares with hsame | hrv | ⟨f, hf, slot, hslot, hvr⟩
        · exact hne hsame
        · exact hparam hrv
        · exact Arena.not_isFunction
            ((hs.arena.slots hf (List.mem_cons_of_mem _ hslot)).isPointer hvr) hv.1
      · exact hne (hp.onDemand v r (.signature hset hv') (.inl ⟨anchor, hr⟩) hshares.symm).symm
    · exact hne (hp.onDemand r v hr hv.rooted hshares)
  · -- what a parameter of a signature shares, the signature shares too
    obtain ⟨a, ha, hva⟩ := hshares
    obtain ⟨g, hg, slot, hslot, hrslot⟩ := hrf
    have hown := (hs.arena.owns_function hg).2 ⟨slot, List.mem_cons_of_mem _ hslot, r, hrslot, ha⟩
    obtain rfl := hp.onDemand f v hf hv.rooted ⟨a, hown, hva⟩
    exact hparam ⟨g, hg, slot, hslot, hrslot⟩

/-- What comes from lookups that miss a signature and its parameters is not the signature's. -/
theorem Sourced.not_owned {D : Lookup → Prop} {a : Atom} (h : Sourced u D s a)
    (hs : s.WellFormed) (hp : s.Parted) (hv : s.IsSignature v)
    (hmiss : ∀ l, D l → ∀ set, (l.run u).Ends s set s →
      ∀ r ∈ set, r ≠ v ∧ ¬ s.arena.ParameterOf r v) : ¬ s.arena.Owns v a := by
  intro ha
  cases h with
  | found hl hset hr hra =>
    obtain ⟨hne, hparam⟩ := hmiss _ hl _ hset _ hr
    exact hp.not_shares hs hv (reached_of_lookup hs hset _ hr) hne hparam ⟨a, hra, ha⟩
  | literal ho hr hra =>
    obtain rfl := hp.onDemand _ v (.literal ho hr) hv.rooted ⟨a, hra, ha⟩
    exact Arena.not_isFunction (hs.literals _ ho _ (OrderedMap.mem_of_find? hr)) hv.1

/-! ## Allocations -/

/-- In whatever session a unit is followed: where nothing that is equated draws on the functions of an
allowed name, no equation is recorded for what stands for such a function alone. Its calls may be
anywhere else: whole values of assignments, initializers and returns, below any conversions. -/
theorem Reachable.flow_spares_allocations {summary : FlowSummary} {name : String}
    (hs : Reachable options s) (hflow : (flow u).Ends s summary t) (hallowed : options.allows name)
    (hdrawn : ∀ steps, u.steps = .ok steps → ∀ step ∈ steps, ∀ e, step.Equates u options e →
      ∀ view d, u.Draws step.view e view d → ¬ u.IsFunctionNamed name d)
    (hv : t.IsSignature v)
    (halone : ∀ steps, u.steps = .ok steps → ∀ step ∈ steps, ∀ l, step.LooksUp u options l →
      (∀ view d, l = .denoted view d → ¬ u.IsFunctionNamed name d) →
        ∀ set, (l.run u).Ends t set t → ∀ r ∈ set, r ≠ v ∧ ¬ t.arena.ParameterOf r v) :
    ∀ a b, .equal a b ∈ t.solver.constraints →
      .equal a b ∈ s.solver.constraints ∨ ¬ t.arena.Owns v a ∧ ¬ t.arena.Owns v b := by
  obtain ⟨steps, hsteps, hp, hsources⟩ := flow_sources hs.wellFormed hs.parted hflow
  rw [hs.options_eq] at hsources
  have ht : t.WellFormed := ((flow_meets u hs.wellFormed).of_ends hflow).1.wellFormed hs.wellFormed
  have hmiss : ∀ l, (∃ step ∈ steps, step.LooksUp u options l) → ∀ set, (l.run u).Ends t set t →
      ∀ r ∈ set, r ≠ v ∧ ¬ t.arena.ParameterOf r v := by
    rintro l ⟨step, hstep, hl⟩
    refine halone steps hsteps step hstep l hl ?_
    rintro view d rfl hnamed
    cases hl with
    | drawn he hd => exact hdrawn steps hsteps step hstep _ he _ _ hd hnamed
    | called _ hx hcall htarget =>
      cases hcall.symm.trans (TranslationUnit.isAllowedCall_of_named hx htarget hnamed hallowed)
    | initialized hinit =>
      subst hinit
      obtain ⟨decl, hd, hvalue⟩ := TranslationUnit.hasInit_of_mem_steps hsteps hstep
      obtain ⟨decl', hd', hfunction, -⟩ := hnamed
      obtain rfl := Except.ok.inj (hd.symm.trans hd')
      cases hkind : decl.kind <;> simp [Decl.init?, Decl.isFunction, hkind] at hvalue hfunction
  intro a b hab
  exact (hsources a b hab).imp_right fun h =>
    ⟨h.1.not_owned ht hp hv hmiss, h.2.not_owned ht hp hv hmiss⟩

/-- Pointers that get what an allocation returns, one of them by a conversion, and one that gets
another pointer. -/
def directAllocations : TranslationUnit :=
  let ptr : CType := .pointer .int
  let pointer (name : String) (line : Nat) : Decl :=
    ⟨name, ⟨"a.c", line, 6⟩, false, .var ptr true none none⟩
  { id := 0
    file := "a.c"
    decls := #[
      ⟨"malloc", ⟨"stdlib.h", 1, 7⟩, false,
        .function ⟨.pointer (.builtin "void"), [.int], false, true⟩ [] true none⟩,
      pointer "p" 1, pointer "q" 2, pointer "r" 3,
      ⟨"f", ⟨"a.c", 4, 6⟩, false, .function ⟨.builtin "void", [], false, true⟩ [] true
        (some [.expr 4, .expr 10, .expr 13])⟩]
    exprs := #[.declRef 1, .declRef 0, .intLiteral 4, .call 1 [2], .binary .assign 0 3,
      .declRef 2, .declRef 0, .intLiteral 8, .call 6 [7], .cast ptr 8, .binary .assign 5 9,
      .declRef 3, .declRef 1, .binary .assign 11 12]
    topLevel := [0, 1, 2, 3, 4] }

def indexedThrough (u : TranslationUnit) : List Request :=
  .enter u :: u.topLevel.flatMap fun d => [.giveVariables u d, .noteFunction u d]

theorem directAllocations_steps :
    directAllocations.steps = .ok [.expr 4, .expr 10, .expr 13] := by
  have hsteps : directAllocations.steps.toOption = some [.expr 4, .expr 10, .expr 13] := by
    decide +kernel
  cases h : directAllocations.steps with
  | error e => rw [h] at hsteps; cases hsteps
  | ok steps => rw [h] at hsteps; rw [Option.some.inj hsteps]

theorem directAllocations_lt {e : ExprId} {x : Expr} (hx : directAllocations.expr e = .ok x) :
    e < 14 := TranslationUnit.lt_of_expr hx

/-- Every call of the unit is exempt. -/
theorem directAllocations_exempt {call callee : ExprId} {args : List ExprId}
    (hx : directAllocations.expr call = .ok (.call callee args)) :
    directAllocations.isAllowedCall .default call ≠ .ok false := by
  have hcalls : ∀ e ∈ [3, 8],
      (directAllocations.isAllowedCall .default e).toOption = some true := by decide +kernel
  intro hcall
  have hmem : call ∈ [3, 8] := by
    have hlt := directAllocations_lt hx
    interval_cases call <;> first | decide | cases hx
  have htrue := hcalls call hmem
  rw [hcall] at htrue
  cases htrue

/-- It equates the four pointers that it names outside of calls. -/
theorem directAllocations_equates {step : FlowStep} {e : ExprId}
    (hstep : step ∈ [FlowStep.expr 4, .expr 10, .expr 13])
    (h : step.Equates directAllocations .default e) : e ∈ [0, 5, 11, 12] := by
  cases h with
  | delivered hvalue _ =>
    simp only [List.mem_cons, List.not_mem_nil, or_false] at hstep
    rcases hstep with rfl | rfl | rfl <;> cases hvalue
  | @target node _ _ _ hx =>
    have hlt := directAllocations_lt hx
    interval_cases node <;> cases hx <;> decide
  | @assigned node _ _ _ _ hx hcarried =>
    have hlt := directAllocations_lt hx
    cases hcarried with
    | converted hcore hcast hcall =>
      interval_cases node <;> cases hx <;> cases hcore <;> cases hcast
      exact absurd hcall (@directAllocations_exempt 8 _ _ rfl)
    | plain hcore hplain hnot hcall =>
      interval_cases node <;> cases hx <;> cases hcore <;> cases hplain
      · exact absurd hcall (@directAllocations_exempt 3 _ _ rfl)
      · exact absurd rfl (hnot _ _)
      · decide
  | argument _ hx hcall _ => exact absurd hcall (directAllocations_exempt hx)
  | computed _ hx hcall _ => exact absurd hcall (directAllocations_exempt hx)

/-- The expressions of that program draw on its three pointers alone. -/
theorem directAllocations_draws {view view' : Viewpoint} {e : ExprId} {d : DeclId}
    (he : e ∈ [0, 5, 11, 12]) (h : directAllocations.Draws view e view' d) :
    view' = view ∧ d ∈ [1, 2, 3] := by
  simp only [List.mem_cons, List.not_mem_nil, or_false] at he
  cases h with
  | name hx hd =>
    rcases he with rfl | rfl | rfl | rfl <;> cases hx <;> cases hd <;> exact ⟨rfl, by decide⟩
  | operand hx ho _ => rcases he with rfl | rfl | rfl | rfl <;> cases hx <;> cases ho
  | called hx _ => rcases he with rfl | rfl | rfl | rfl <;> cases hx
  | computed hx _ _ => rcases he with rfl | rfl | rfl | rfl <;> cases hx

/-- It looks for the three pointers. -/
theorem directAllocations_looksUp {step : FlowStep} {l : Lookup}
    (hstep : step ∈ [FlowStep.expr 4, .expr 10, .expr 13])
    (h : step.LooksUp directAllocations .default l) : ∃ d ∈ [1, 2, 3], l = .denoted .body d := by
  cases h with
  | drawn he hd =>
    obtain ⟨rfl, hpointer⟩ := directAllocations_draws (directAllocations_equates hstep he) hd
    simp only [List.mem_cons, List.not_mem_nil, or_false] at hstep
    rcases hstep with rfl | rfl | rfl <;> exact ⟨_, hpointer, rfl⟩
  | called _ hx hcall _ => exact absurd hcall (directAllocations_exempt hx)
  | initialized hinit => simp [hinit] at hstep
  | returned hret => simp [hret] at hstep

/-- The assignment of a pointer to another equates them; nothing is equated with what allocations
return. -/
theorem Reachable.flow_spares_allocations_direct :
    ∃ s summary t, Reachable .default s ∧ (flow directAllocations).Ends s summary t ∧
      t.IsSignature 1 ∧ .equal 1 3 ∈ t.solver.constraints ∧
      ∀ a b, .equal a b ∈ t.solver.constraints → ¬ t.arena.Owns 1 a ∧ ¬ t.arena.Owns 1 b := by
  let visit : Op FlowSummary := do
    Session.requests (indexedThrough directAllocations)
    flow directAllocations
  obtain ⟨summary, t, hvisit, hlook⟩ := exists_ends (x := visit) (s := .new .default)
    (g := fun _ t =>
      ((t.arena.function? 1).map FunctionVariable.params = some [] &&
        (t.storedAt ⟨"stdlib.h", 1, 7⟩).members = [1] &&
        decide (.equal 1 3 ∈ t.solver.constraints) &&
        [1, 2, 3].all fun d =>
          (denoteDecl directAllocations d .body t).1.toOption = some (.singleton (d + 1))))
    (b := true) (by decide +kernel)
  obtain ⟨_, s, hrequests, hflow⟩ := ends_bind.1 hvisit
  obtain ⟨_, s', hrequests', hnothing⟩ := exists_ends
    (x := Session.requests (indexedThrough directAllocations)) (s := .new .default)
    (g := fun _ s => s.solver.constraints) (b := #[]) (by decide +kernel)
  obtain rfl := (hrequests.unique hrequests').2
  simp only [Bool.and_eq_true, decide_eq_true_eq, List.all_eq_true] at hlook
  obtain ⟨⟨⟨hparams, hstored⟩, hequated⟩, hfound⟩ := hlook
  obtain ⟨f, hf, hparams⟩ := Option.map_eq_some_iff.1 hparams
  have hs : Reachable .default s := Reachable.new.requests hrequests
  have hv : t.IsSignature 1 := by
    refine ⟨Arena.isFunction_iff.2 ⟨f, hf⟩, .inl ⟨⟨"stdlib.h", 1, 7⟩, ?_⟩⟩
    show 1 ∈ (t.storedAt ⟨"stdlib.h", 1, 7⟩).members
    rw [hstored]
    exact List.mem_cons_self
  have hallowed : Options.default.allows "malloc" := by decide
  have hspared := hs.flow_spares_allocations hflow hallowed ?_ hv ?_
  · refine ⟨s, summary, t, hs, hflow, hv, hequated, fun a b hab => ?_⟩
    rcases hspared a b hab with hold | hown
    · rw [hnothing] at hold
      exact absurd hold (Array.not_mem_empty _)
    · exact hown
  · intro steps hsteps step hstep e he view d hd
    obtain rfl := Except.ok.inj (directAllocations_steps.symm.trans hsteps)
    obtain ⟨-, hd⟩ := directAllocations_draws (directAllocations_equates hstep he) hd
    rintro ⟨decl, hdecl, hfunction, -⟩
    simp only [List.mem_cons, List.not_mem_nil, or_false] at hd
    rcases hd with rfl | rfl | rfl <;> cases hdecl <;> cases hfunction
  · intro steps hsteps step hstep l hl _ set hset r hr
    obtain rfl := Except.ok.inj (directAllocations_steps.symm.trans hsteps)
    obtain ⟨d, hd, rfl⟩ := directAllocations_looksUp hstep hl
    have hne : r ≠ 1 := by
      have hset : denoteDecl directAllocations d .body t = (.ok set, t) := hset
      have hdenoted := hfound d hd
      rw [hset] at hdenoted
      obtain rfl := Option.some.inj hdenoted
      obtain rfl := (VarSet.mem_singleton _ _).1 hr
      have hpos : ∀ d ∈ [1, 2, 3], d + 1 ≠ 1 := by decide
      exact hpos d hd
    refine ⟨hne, ?_⟩
    rintro ⟨g, hg, slot, hslot, -⟩
    obtain rfl := Option.some.inj (hf.symm.trans hg)
    rw [hparams] at hslot
    exact List.not_mem_nil hslot

/-- Two pairs of pointers, each given what one allocation returns by a chained assignment; a pointer
of the first pair is indexed. -/
def chainedAllocations : TranslationUnit :=
  let ptr : CType := .pointer .int
  let pointer (name : String) (line : Nat) : Decl :=
    ⟨name, ⟨"a.c", line, 6⟩, false, .var ptr true none none⟩
  { id := 0
    file := "a.c"
    decls := #[
      ⟨"malloc", ⟨"stdlib.h", 1, 7⟩, false,
        .function ⟨.pointer (.builtin "void"), [.int], false, true⟩ [] true none⟩,
      pointer "p" 1, pointer "q" 2, pointer "r" 3, pointer "s" 4,
      ⟨"f", ⟨"a.c", 5, 6⟩, false, .function ⟨.builtin "void", [], false, true⟩ [] true
        (some [.expr 6, .expr 13, .expr 16])⟩]
    exprs := #[.declRef 1, .declRef 2, .declRef 0, .intLiteral 4, .call 2 [3],
      .binary .assign 1 4, .binary .assign 0 5, .declRef 3, .declRef 4, .declRef 0, .intLiteral 8,
      .call 9 [10], .binary .assign 8 11, .binary .assign 7 12, .declRef 1, .intLiteral 1,
      .subscript 14 15]
    topLevel := [0, 1, 2, 3, 4, 5] }

theorem chainedAllocations_lt {e : ExprId} {x : Expr} (hx : chainedAllocations.expr e = .ok x) :
    e < 17 := TranslationUnit.lt_of_expr hx

theorem chainedAllocations_named {d : DeclId}
    (h : chainedAllocations.IsFunctionNamed "malloc" d) : d = 0 := by
  obtain ⟨decl, hdecl, -, hname⟩ := h
  have hlt : d < 6 := (Array.getElem?_eq_some_iff.1 (TranslationUnit.decl_eq_ok.1 hdecl)).1
  interval_cases d <;> cases hdecl <;> first | rfl | exact absurd hname (by decide)

/-- The chained program names `malloc` only to call it. -/
theorem chainedAllocations_onlyCalls : chainedAllocations.OnlyCalls "malloc" := by
  intro e x d hx hd hnamed
  obtain rfl := chainedAllocations_named hnamed
  have hplace : e = 2 ∨ e = 9 := by
    have hlt := chainedAllocations_lt hx
    interval_cases e <;> cases hx <;> cases hd <;> decide
  have hparent : ∀ parent y, chainedAllocations.expr parent = .ok y → e ∈ y.operands →
      ∃ args, y = .call e args ∧ e ∉ args := by
    intro parent y hy he
    have hlt := chainedAllocations_lt hy
    rcases hplace with rfl | rfl <;> interval_cases parent <;> cases hy <;>
      first
      | exact absurd he (by decide)
      | exact ⟨_, rfl, by decide⟩
  refine ⟨?_, hparent⟩
  rcases hplace with rfl | rfl
  · exact ⟨4, [3], rfl⟩
  · exact ⟨11, [10], rfl⟩

/-- What a chained assignment gives its outer target is the call after all: it is equated with what
the allocation function stands for, and so all four pointers with one another. -/
theorem flow_equates_chainedAllocations :
    ∃ s summary t, Reachable .default s ∧ (flow chainedAllocations).Ends s summary t ∧
      chainedAllocations.checkClosed = .ok () ∧ chainedAllocations.OnlyCalls "malloc" ∧
      Options.default.allows "malloc" ∧
      (∃ v a b, v ∈ t.storedAt ⟨"stdlib.h", 1, 7⟩ ∧ t.arena.isFunction v ∧
        .equal a b ∈ t.solver.constraints ∧ .equal a b ∉ s.solver.constraints ∧
        t.arena.Owns v a) ∧
      ∃ r a, r ∈ t.storedAt ⟨"a.c", 3, 6⟩ ∧ t.arena.Owns r a ∧ t.solver.solve.category a = .arr := by
  let visit : Op FlowSummary := do
    Session.requests (indexedThrough chainedAllocations)
    flow chainedAllocations
  obtain ⟨summary, t, hvisit, hlook⟩ := exists_ends (x := visit) (s := .new .default)
    (g := fun _ t =>
      (t.storedAt ⟨"stdlib.h", 1, 7⟩).members = [1] && t.arena.isFunction 1 &&
        decide (.equal 0 1 ∈ t.solver.constraints) && t.arena.atoms? 1 = some [0] &&
        (t.storedAt ⟨"a.c", 3, 6⟩).members = [4] && t.arena.atoms? 4 = some [3] &&
        t.solver.solve.category 3 = .arr)
    (b := true) (by decide +kernel)
  obtain ⟨_, s, hrequests, hflow⟩ := ends_bind.1 hvisit
  obtain ⟨_, s', hrequests', hnothing⟩ := exists_ends
    (x := Session.requests (indexedThrough chainedAllocations)) (s := .new .default)
    (g := fun _ s => s.solver.constraints) (b := #[]) (by decide +kernel)
  obtain rfl := (hrequests.unique hrequests').2
  simp only [Bool.and_eq_true, decide_eq_true_eq] at hlook
  obtain ⟨⟨⟨⟨⟨⟨hmalloc, hfunction⟩, hequal⟩, hreturn⟩, hstored⟩, hatoms⟩, hcategory⟩ := hlook
  refine ⟨s, summary, t, Reachable.new.requests hrequests, hflow, by decide +kernel,
    chainedAllocations_onlyCalls, by decide, ⟨1, 0, 1, ?_, hfunction, hequal, ?_, ?_⟩,
    4, 3, ?_, ⟨_, hatoms, List.mem_singleton_self 3⟩, hcategory⟩
  · show 1 ∈ (t.storedAt ⟨"stdlib.h", 1, 7⟩).members
    rw [hmalloc]
    exact List.mem_singleton_self 1
  · rw [hnothing]
    exact Array.not_mem_empty _
  · exact ⟨_, hreturn, List.mem_singleton_self 0⟩
  · show 4 ∈ (t.storedAt ⟨"a.c", 3, 6⟩).members
    rw [hstored]
    exact List.mem_singleton_self 4

end Session

end CheckedPointers
