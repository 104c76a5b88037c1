import CheckedPointers.Proofs.Analysis.Rest
import CheckedPointers.Proofs.Session.Completion
import CheckedPointers.Proofs.Session.Rounds

/-!
An analysis of closed units has an outcome, unless a declarator of function type is no function
declaration.
-/
namespace CheckedPointers

open Op TranslationUnit

namespace Session

variable {s t : Session} {may : Failure → Prop} {units : List TranslationUnit} {options : Options}

/-! ## Indexing and following -/

/-- A unit that has been indexed is closed again. -/
theorem opened_of_indexUnit {u : TranslationUnit} {made : List DeclId}
    (h : (indexUnit u).Ends s made t) : t.opened = none := by
  obtain ⟨_, _, -, h⟩ := ends_bind.1 h
  obtain ⟨_, _, -, h⟩ := ends_bind.1 h
  obtain ⟨_, _, -, h⟩ := ends_bind.1 h
  obtain ⟨_, w, hexit, h⟩ := ends_bind.1 h
  obtain ⟨-, rfl⟩ := ends_pure.1 h
  exact opened_of_exit hexit

/-- Indexing closes each unit it has opened. -/
theorem opened_of_indexUnits (h : (indexUnits units).Ends s ⟨⟩ t) (hs : s.opened = none) :
    t.opened = none := by
  induction units generalizing s with
  | nil =>
    obtain ⟨-, rfl⟩ := ends_pure.1 h
    exact hs
  | cons u rest ih =>
    obtain ⟨_, w, hfirst, hrest⟩ := ends_bind.1 h
    obtain ⟨made, hmade⟩ := ends_discard.1 hfirst
    exact ih hrest (opened_of_indexUnit hmade)

/-- Following closes each unit it has opened. -/
theorem opened_of_flowUnits {f : FlowSummary} (h : (flowUnits units).Ends s f t)
    (hs : s.opened = none) : t.opened = none := by
  induction units generalizing s f with
  | nil =>
    obtain ⟨-, rfl⟩ := ends_pure.1 h
    exact hs
  | cons u rest ih =>
    obtain ⟨_, _, _, _, _, -, -, -, hexit, hrest⟩ := ends_flowUnits_cons h
    exact ih hrest (opened_of_exit hexit)

/-- Between two units the session is well formed and no unit is open. -/
structure Idle (s : Session) : Prop where
  wellFormed : s.WellFormed
  opened : s.opened = none

/-- Closed units can all be indexed, unless a declarator hides a function. -/
theorem indexUnits_failsOnly (hu : ∀ u ∈ units, u.Closed) (hs : s.Idle)
    (hmay : ∀ u ∈ units, ∀ name, u.Hides name → may (.fault (.notAFunction name))) :
    FailsOnly may (indexUnits units) s := by
  apply FailsOnly.forM (I := Idle) hs
  · exact fun u hmem t ht =>
      (indexUnit_failsOnly (hu u hmem) ht.wellFormed ht.opened (hmay u hmem)).discard
  · intro u _ t ht w hw
    obtain ⟨made, hmade⟩ := ends_discard.1 hw
    have htw : t.Indexes w := ((indexUnit_meets u ht.wellFormed).of_ends hmade).1
    exact ⟨htw.wellFormed ht.wellFormed, opened_of_indexUnit hmade⟩

theorem Idle.indexUnits (hs : s.Idle) (h : (indexUnits units).Ends s ⟨⟩ t) : t.Idle :=
  ⟨(indexes_of_indexUnits h hs.wellFormed).wellFormed hs.wellFormed,
    opened_of_indexUnits h hs.opened⟩

theorem flowUnits_failsOnly (hu : ∀ u ∈ units, u.Closed) (hs : s.Idle) :
    FailsOnly may (flowUnits units) s := by
  induction units generalizing s with
  | nil => exact .pure
  | cons u rest ih =>
    apply (enter_failsOnly u hs.opened).bind
    intro _ t ht
    have hrt := Ready.of_enter hs.wellFormed ht
    apply hrt.bind_visits (flow_failsOnly (hu u List.mem_cons_self) hrt)
      (flow_meets u hrt.wellFormed)
    intro first w _ hrw _
    apply (exit_failsOnly hrw).bind
    intro _ z hz
    have hwz : w.Follows z := ((exit_meets w).of_ends hz).1
    have hidle : z.Idle := ⟨hwz.wellFormed hrw.wellFormed, opened_of_exit hz⟩
    exact (ih (fun v hv => hu v (List.mem_cons_of_mem u hv)) hidle).bind fun _ _ _ => .pure

theorem Idle.flowUnits {f : FlowSummary} (hs : s.Idle) (h : (flowUnits units).Ends s f t) :
    t.Idle :=
  ⟨(follows_of_flowUnits h hs.wellFormed).wellFormed hs.wellFormed,
    opened_of_flowUnits h hs.opened⟩

/-! ## Linking -/

/-- What stands in the slots of a known function is known. -/
theorem holds_slot {v : VarId} {f : FunctionVariable} {slot : VarSet} (hs : s.WellFormed)
    (hf : s.arena.function? v = some f) (hslot : slot ∈ f.slots) : Holds slot s :=
  fun _ hw => (hs.arena.slot_lt hf hslot hw).2

theorem boundSignature_failsOnly {v : VarId} {f : FunctionVariable} (c : Category)
    (hs : s.WellFormed) (hf : s.arena.function? v = some f) :
    FailsOnly may (boundSignature f c) s := by
  apply FailsOnly.forM_records hs
  · intro slot hslot t hst ht
    exact (boundSet_failsOnly ht (holds_slot ht (hst.arena ▸ hf) hslot)).discard
  · exact fun slot _ t => Meets.discard (boundSet_meets slot c t).any

/-- Declarations are reconciled without a failure, since their slots hold variables that are there.
-/
theorem reconcile_failsOnly (a b : VarId) (hs : s.WellFormed) :
    FailsOnly may (reconcile a b) s := by
  apply FailsOnly.bind_get
  dsimp only
  split
  · next f g hf hg =>
    have hreturns : FailsOnly may (equateSets f.returns g.returns) s :=
      equateSets_failsOnly hs (holds_slot hs hf List.mem_cons_self)
        (holds_slot hs hg List.mem_cons_self)
    apply hreturns.bind_meets (equateSets_meets f.returns g.returns s)
    intro _ t (hst : s.Records t) _
    have ht := hst.creates.wellFormed hs
    split
    · have hparams : FailsOnly may ((f.params.zip g.params).forM fun slots =>
          equateSets slots.1 slots.2) t := by
        apply FailsOnly.forM_records ht
        · intro e he w htw hw
          have hsw := hst.trans htw
          obtain ⟨hleft, hright⟩ := List.of_mem_zip he
          exact equateSets_failsOnly hw
            (holds_slot hw (hsw.arena ▸ hf) (List.mem_cons_of_mem _ hleft))
            (holds_slot hw (hsw.arena ▸ hg) (List.mem_cons_of_mem _ hright))
        · exact fun e _ w => (equateSets_meets e.1 e.2 w).any
      exact hparams.bind fun _ _ _ => .pure
    · split
      · apply (boundSignature_failsOnly .leastSafe ht (hst.arena ▸ hf)).bind_meets
          (boundSignature_meets f .leastSafe t)
        intro _ w (htw : t.Records w) _
        have hg' : w.arena.function? b = some g := by rw [(hst.trans htw).arena, hg]
        exact (boundSignature_failsOnly .leastSafe (htw.creates.wellFormed ht) hg').bind
          fun _ _ _ => .pure
      · exact .pure
  · exact .pure

/-- Steps between neighbours fail only as each of them may. -/
theorem chain_failsOnly {α : Type} {f : VarId → VarId → Op α} {l : List VarId}
    (hs : s.WellFormed) (h : ∀ a ∈ l, ∀ b ∈ l, ∀ t, s.Records t → t.WellFormed →
      FailsOnly may (f a b) t)
    (hm : ∀ a b t, Meets .records (f a b) t fun _ _ => True) : FailsOnly may (chain f l) s := by
  induction l generalizing s with
  | nil => exact .pure
  | cons a l ih =>
    cases l with
    | nil => exact .pure
    | cons b rest =>
      rw [chain]
      apply (h a (by simp) b (by simp) s (.refl s) hs).bind_meets (hm a b s)
      intro _ t (hst : s.Records t) _
      have hrest := ih (hst.creates.wellFormed hs) fun x hx y hy w htw =>
        h x (List.mem_cons_of_mem a hx) y (List.mem_cons_of_mem a hy) w (hst.trans htw)
      exact hrest.bind fun _ _ _ => .pure

theorem reconcileAll_failsOnly (arena : Arena) (sets : List VarSet) (hs : s.WellFormed) :
    FailsOnly may (sets.mapM fun set => chain reconcile (bodiless arena set)) s := by
  induction sets generalizing s with
  | nil => exact .pure
  | cons x rest ih =>
    have hchain : FailsOnly may (chain reconcile (bodiless arena x)) s :=
      chain_failsOnly hs (fun a _ b _ t _ ht => reconcile_failsOnly a b ht)
        fun a b t => (reconcile_meets a b t).any
    have hmeets := chain_meets (P := fun _ _ _ => True) (fun _ _ _ _ _ h => h)
      (fun a b t => (reconcile_meets a b t).any) (bodiless arena x) s
    rw [List.mapM_cons]
    apply hchain.bind_meets hmeets
    intro _ t (hst : s.Records t) _
    exact (ih (hst.creates.wellFormed hs)).bind fun _ _ _ => .pure

theorem boundName_failsOnly (name : String) (hs : s.WellFormed) :
    FailsOnly may (boundName name) s := by
  apply FailsOnly.bind_get
  apply FailsOnly.forM_records hs
  · intro v _ t _ ht
    apply FailsOnly.bind_get
    split
    · next f hf => exact boundSignature_failsOnly .leastSafe ht hf
    · exact .pure
  · intro v _ t
    apply Meets.bind_get
    split
    · exact (boundSignature_meets _ .leastSafe t).any
    · exact Meets.pure trivial

/-- Between two units linking cannot fail. -/
theorem link_failsOnly (hs : s.Idle) : FailsOnly may link s := by
  have hs' := hs.wellFormed
  apply FailsOnly.bind_get
  simp only [hs.opened, Option.isSome_none, Bool.false_eq_true, if_false]
  have hchain : ∀ set t, Meets .records (discard (chain equate (VarSet.members set))) t
      fun _ _ => True := fun set t =>
    Meets.discard (chain_meets (P := fun _ _ _ => True) (fun _ _ _ _ _ h => h)
      (fun a b t => (equate_meets a b t).any) set.members t).any
  have hshared : FailsOnly may ((s.index.values.filter fun set => 1 < set.size).forM
      fun set => discard (chain equate set.members)) s := by
    apply FailsOnly.forM_records hs'
    · intro set hset t hst ht
      obtain ⟨e, he, rfl⟩ := List.mem_map.1 (List.mem_filter.1 hset).1
      have hholds : ∀ v ∈ e.2.members, v < t.arena.size := fun v hv =>
        hst.arena ▸ hs'.index e he v hv
      exact (chain_failsOnly ht (fun a ha b hb w htw hw => equate_failsOnly hw
        (htw.arena ▸ hholds a ha) (htw.arena ▸ hholds b hb))
          fun a b w => (equate_meets a b w).any).discard
    · exact fun set _ t => hchain set t
  have hsharedMeets : Meets .records ((s.index.values.filter fun set => 1 < set.size).forM
      fun set => discard (chain equate set.members)) s fun _ _ => True :=
    (Meets.forM (P := fun _ _ => True) (fun _ _ _ _ h => h) fun set _ t _ => hchain set t).any
  apply hshared.bind_meets hsharedMeets
  intro _ t (hst : s.Records t) _
  have ht := hst.creates.wellFormed hs'
  have hmerge : FailsOnly may mergeDeclarations t := by
    apply FailsOnly.bind_get
    split
    · exact (reconcileAll_failsOnly _ _ ht).bind fun _ _ _ => .pure
    · exact .pure
  apply hmerge.bind_meets (mergeDeclarations_meets t)
  intro merged w (htw : t.Records w) _
  have hnames : FailsOnly may (s.unresolvedNames.forM boundName) w :=
    FailsOnly.forM_records (htw.creates.wellFormed ht)
      (fun name _ z _ hz => boundName_failsOnly name hz) fun name _ z => (boundName_meets name z).any
  exact hnames.bind fun _ _ _ => FailsOnly.bind_get .pure

/-! ## Settling -/

theorem settleFrom_failsOnly (n rounds : Nat) (hs : s.WellFormed) :
    FailsOnly may (settleFrom n rounds s.solver.solve) s := by
  induction n generalizing s rounds with
  | zero => exact .pure
  | succ n ih =>
    obtain ⟨b, t, hrepair, hst, -⟩ := hs.repair_ends
    apply FailsOnly.bind_ends hrepair
    cases b with
    | false => exact .pure
    | true =>
      exact FailsOnly.bind_ends (ends_solve.2 ⟨rfl, rfl⟩) (ih _ (hst.creates.wellFormed hs))

theorem assignment_failsOnly (sol : Solution) (hs : s.WellFormed) :
    FailsOnly may (assignment sol) s := by
  have hentries : ∀ {κ : Type} (m : OrderedMap κ VarSet), (∀ e ∈ m.entries, Holds e.2 s) →
      ∃ rs, s.reportEntries sol m = some rs := by
    intro κ m hm
    apply exists_mapM_any
    intro e he
    obtain ⟨reports, hreports⟩ := exists_mapM_any fun v hv =>
      hs.arena.exists_report sol (hm e he v hv)
    exact ⟨(e.1, reports), Option.map_eq_some_iff.2 ⟨reports, hreports, rfl⟩⟩
  obtain ⟨indexed, hindexed⟩ := hentries s.index hs.index
  obtain ⟨onDemand, honDemand⟩ := hentries s.implicits fun e he v hv =>
    Arena.lt_of_isFunction (hs.implicits e he v hv)
  have hsome : s.assignment? sol = some ⟨indexed, onDemand, sol.tally⟩ := by
    simp [assignment?, hindexed, honDemand]
  exact FailsOnly.bind_get (.of_ends (ends_known.2 ⟨hsome, rfl⟩))

/-- From a session in which no unit is open, an analysis of closed units fails in no other way than
by a hidden function. -/
theorem analyse_failsOnly (hu : ∀ u ∈ units, u.Closed) (hs : s.Idle)
    (hmay : ∀ u ∈ units, ∀ name, u.Hides name → may (.fault (.notAFunction name))) :
    FailsOnly may (analyse units) s := by
  apply (indexUnits_failsOnly hu hs hmay).bind
  intro _ t ht
  have htidle := hs.indexUnits ht
  apply (flowUnits_failsOnly hu htidle).bind
  intro flow w hw
  have hwidle := htidle.flowUnits hw
  apply (link_failsOnly hwidle).bind_meets (link_meets w)
  intro link z (hwz : w.Records z) _
  have hz := hwz.creates.wellFormed hwidle.wellFormed
  apply FailsOnly.bind_get
  have hsettle : FailsOnly may (settle (max z.options.maxRepairRounds 1)) z :=
    FailsOnly.bind_ends (ends_solve.2 ⟨rfl, rfl⟩) (settleFrom_failsOnly _ 0 hz)
  apply hsettle.bind_meets (settle_meets _ hz)
  intro settled r (hzr : z.Records r) _
  exact (assignment_failsOnly settled.sol (hzr.creates.wellFormed hz)).bind fun _ _ _ => .pure

theorem idle_new (options : Options) : (new options).Idle := ⟨wellFormed_new options, rfl⟩

/-- An analysis of closed units has an outcome, whatever the options, the anchors and the shapes of
the declarations. The one exception is a declarator of function type that is no function
declaration: the analysis may stop at it, and then says so. -/
theorem analyse_ends_or_hides (h : ∀ u ∈ units, u.checkClosed = .ok ()) (options : Options) :
    (∃ outcome s, (analyse units).Ends (.new options) outcome s) ∨
    ∃ u ∈ units, ∃ name t, u.Hides name ∧
      analyse units (.new options) = (.error (.fault (.notAFunction name)), t) := by
  have hfails : FailsOnly
      (fun e => ∃ u ∈ units, ∃ name, u.Hides name ∧ e = .fault (.notAFunction name))
      (analyse units) (.new options) :=
    analyse_failsOnly (fun u hu => closed_of_checkClosed (h u hu)) (idle_new options)
      fun u hu name hname => ⟨u, hu, name, hname, rfl⟩
  rcases hrun : analyse units (.new options) with ⟨e | outcome, t⟩
  · obtain ⟨u, hu, name, hname, rfl⟩ := hfails.of_error e t hrun
    exact .inr ⟨u, hu, name, t, hname, rfl⟩
  · exact .inl ⟨outcome, t, hrun⟩

/-- Only functions are declared at file scope, so nothing hides one. -/
theorem analyse_ends_or_hides_subscriptedParameter :
    subscriptedParameter.checkClosed = .ok () ∧
      ∃ outcome s, (analyse [subscriptedParameter]).Ends (.new .default) outcome s := by
  have hclosed : subscriptedParameter.checkClosed = .ok () := by decide +kernel
  refine ⟨hclosed, ?_⟩
  have hall : ∀ u ∈ [subscriptedParameter], u.checkClosed = .ok () := fun u hu =>
    List.mem_singleton.1 hu ▸ hclosed
  rcases analyse_ends_or_hides hall .default with h | ⟨u, hu, name, t, hhides, -⟩
  · exact h
  · obtain ⟨ids, hids, id, hid, d, hd, ⟨-, hfun, -⟩, -⟩ := hhides
    obtain rfl := List.mem_singleton.1 hu
    have hboth : subscriptedParameter.declarators = .ok [1, 3] := by decide +kernel
    obtain rfl := Except.ok.inj (hboth.symm.trans hids)
    rcases List.mem_cons.1 hid with rfl | hid
    · obtain rfl := Except.ok.inj hd
      exact absurd rfl hfun
    · obtain rfl := List.mem_singleton.1 hid
      obtain rfl := Except.ok.inj hd
      exact absurd rfl hfun

/-- A variable `v` whose type is a name for a function type. -/
def aliasedFunction : TranslationUnit :=
  let name := "fn"
  let ty : CType := .typedef name (.function .int [] false true)
  { id := 0
    file := "a.c"
    decls := #[⟨"v", ⟨"a.c", 1, 1⟩, false, .var ty true none none⟩]
    exprs := #[]
    topLevel := [0] }

/-- The unit is closed and its anchors are valid, and yet its analysis has no outcome. -/
theorem analyse_stops_at_aliasedFunction :
    aliasedFunction.checkClosed = .ok () ∧ (∀ d ∈ aliasedFunction.decls, d.anchor.isValid) ∧
      ¬ ∃ outcome s, (analyse [aliasedFunction]).Ends (.new .default) outcome s := by
  refine ⟨by decide +kernel, by decide, ?_⟩
  rintro ⟨outcome, s, h⟩
  have hfault : (analyse [aliasedFunction] (.new .default)).1 =
      .error (.fault (.notAFunction "v")) := rfl
  rw [Ends] at h
  rw [h] at hfault
  cases hfault

end Session

end CheckedPointers
