import CheckedPointers.Proofs.Session.MirroredFlow
import CheckedPointers.Proofs.Session.Skeleton

/-!
Units followed with their statements in another order. Each statement finds on record what it
recorded in the first order; and as that holds in both directions, what one order leaves stands in
what the other one leaves.
-/
namespace CheckedPointers

open Op

namespace FlowSummary

theorem add_left_comm (a b c : FlowSummary) : a.add (b.add c) = b.add (a.add c) := by
  simp only [add, mk.injEq]
  omega

instance : LeftCommutative FlowSummary.add := ⟨add_left_comm⟩

def sum (fs : List FlowSummary) : FlowSummary := fs.foldr add zero

theorem sum_perm {fs fs' : List FlowSummary} (h : fs.Perm fs') : sum fs = sum fs' := h.foldr_eq zero

end FlowSummary

namespace Session

variable {s s' t t₀ t₁ : Session} {ρ ρ' : Renaming} {u u' : TranslationUnit}
  {known : FunctionKey → Prop} {func : DeclId} {f : FlowSummary}

/-! ## Statements in another order -/

/-- On its way to `t` the first run did this, and that was the answer. -/
def Happened (R : Frame) (t : Session) {α : Type} (x : Op α) (a : α) : Prop :=
  ∃ t₀ t₁, t₀.WellFormed ∧ x.Ends t₀ a t₁ ∧ R.rel t₁ t

/-- Each statement of a body was followed, one in one session and the next in another. -/
theorem flowStmts_happened {sts : List Stmt} (ht₀ : t₀.WellFormed)
    (h : (flowStmts u func sts).Ends t₀ f t₁) (ht₁ : (keepsFaithful u known).rel t₁ t) :
    ∃ fs, List.Forall₂ (fun st f => Happened (keepsFaithful u known) t
      (countStatement (followStmt u func st)) f) sts fs ∧ f = FlowSummary.sum fs := by
  have hF := keepsFaithful_admitsFlowing u known
  induction sts generalizing t₀ f with
  | nil =>
    obtain ⟨rfl, -⟩ := ends_pure.1 h
    exact ⟨[], .nil, rfl⟩
  | cons st rest ih =>
    obtain ⟨f₁, t', hfirst, h⟩ := ends_bind.1 h
    obtain ⟨f₂, t'', hrest, h⟩ := ends_bind.1 h
    obtain ⟨rfl, rfl⟩ := ends_pure.1 h
    have hst := ((countStatement_stays (followStmt_stays hF func st) t₀).of_ends hfirst).1
    have ht' := (hst ht₀).1.wellFormed ht₀
    have htt := ((flowStmts_stays hF func rest t').of_ends hrest).1
    obtain ⟨fs, hfs, rfl⟩ := ih ht' hrest
    exact ⟨f₁ :: fs, .cons ⟨t₀, t', ht₀, hfirst, (keepsFaithful u known).trans htt ht₁⟩ hfs, rfl⟩

section

variable (ht : t.Visited u known) (h : s.Embeds ρ t) (hk : s.Knows u known)

include ht h hk

/-- What happened to each of some statements happens to them in any order. -/
theorem flowStmts_fits {sts : List Stmt} {fs : List FlowSummary}
    (hfs : List.Forall₂ (fun st f => Happened (keepsFaithful u known) t
      (countStatement (followStmt u func st)) f) sts fs) :
    Fits t (flowStmts u func sts) ρ s fun f _ _ => f = FlowSummary.sum fs := by
  have hF := keepsFaithful_admitsFlowing u known
  induction hfs generalizing ρ s with
  | nil => exact Fits.pure h rfl
  | @cons st f sts fs hst _ ih =>
    obtain ⟨t₀, t₁, ht₀, hends, ht₁⟩ := hst
    have hmirrors := countStatement_mirrors (followStmt_stays hF func st)
      (followStmt_mirrors ht ht₀ h hk func st)
    refine Fits.bind (hmirrors.of_ends hends ht₁) fun first ρ₁ s₁ he hl hfirst => ?_
    refine Fits.bind (ih he (hk.later hl)) fun others ρ₂ s₂ he₂ _ hothers => ?_
    exact Fits.pure he₂ (by rw [← hfirst, hothers]; rfl)

/-- A body is followed with its statements in another order. -/
theorem flowStmts_reordered {sts sts' : List Stmt} (hsts : sts.Perm sts') (ht₀ : t₀.WellFormed)
    (hends : (flowStmts u func sts).Ends t₀ f t₁) (ht₁ : (keepsFaithful u known).rel t₁ t) :
    Fits t (flowStmts u func sts') ρ s fun f' _ _ => f' = f := by
  obtain ⟨fs, hfs, rfl⟩ := flowStmts_happened ht₀ hends ht₁
  obtain ⟨fs', hfs', hperm⟩ := List.perm_comp_forall₂ hsts.symm hfs
  exact (flowStmts_fits ht h hk hfs').mono fun _ _ _ _ _ hf =>
    hf.trans (FlowSummary.sum_perm hperm)

end

theorem flowStmts_skeleton (u : TranslationUnit) (func : DeclId) (sts : List Stmt) :
    flowStmts u.skeleton func sts = flowStmts u func sts := by
  induction sts with
  | nil => rfl
  | cons st rest ih => simp only [flowStmts, followStmt_skeleton, ih]

/-! ## Units -/

section

variable (ht : t.Visited u known) (hu : u.Reorders u') (h : s.Embeds ρ t) (hk : s.Knows u known)
  (ht₀ : t₀.WellFormed)

include ht hu h hk ht₀

/-- A declaration with its statements in another order is followed to the same count, and leaves
nothing that is not there. -/
theorem flowDecl_reordered {id : DeclId} (hends : (flowDecl u id).Ends t₀ f t₁)
    (ht₁ : (keepsFaithful u known).rel t₁ t) :
    Fits t (flowDecl u' id) ρ s fun f' _ _ => f' = f := by
  have hF := keepsFaithful_admitsFlowing u known
  obtain ⟨d, t', hlift, hends⟩ := ends_bind.1 hends
  obtain ⟨hd, rfl⟩ := ends_lift.1 hlift
  obtain ⟨d', hd', hreorders⟩ := hu.decl hd
  have hinit : d'.init? = d.init? := by
    rw [← d.init?_skeleton, hreorders.skeleton_eq, d'.init?_skeleton]
  refine Fits.bind_lift hd' ?_
  rw [hinit]
  cases hi : d.init? with
  | some init =>
    simp only [hi] at hends ⊢
    rw [hu.congr (f := fun u => followInitializer u .declaration id init) fun u =>
      followInitializer_skeleton u id init]
    have hstays : Stays (keepsFaithful u known) (followInitializer u .declaration id init) :=
      followInitializer_stays hF id
    have hmirrors := countStatement_mirrors hstays
      (followInitializer_mirrors ht ht₀ h hk id init)
    exact (hmirrors.of_ends hends ht₁).mono fun _ _ _ _ _ hf => hf.symm
  | none =>
    simp only [hi] at hends ⊢
    have hbody {body body' : List Stmt} (hsts : Stmt.Reorders body body')
        (hends : (flowStmts u id (Stmt.unblocked body) >>= fun g =>
          pure (FlowSummary.add ⟨1, 0, 0⟩ g)).Ends t₀ f t₁) :
        Fits t (flowStmts u' id (Stmt.unblocked body') >>= fun g =>
          pure (FlowSummary.add ⟨1, 0, 0⟩ g)) ρ s fun f' _ _ => f' = f := by
      obtain ⟨f₁, t₂, hstmts, hends⟩ := ends_bind.1 hends
      obtain ⟨rfl, rfl⟩ := ends_pure.1 hends
      rw [hu.congr (f := fun u => flowStmts u id (Stmt.unblocked body')) fun u =>
        flowStmts_skeleton u id _]
      refine Fits.bind (flowStmts_reordered ht h hk hsts.statements ht₀ hstmts ht₁) ?_
      intro f' ρ' s' he _ hf'
      exact Fits.pure he (by rw [hf'])
    cases hreorders with
    | refl =>
      cases hb : d.body? with
      | some body =>
        simp only [hb] at hends ⊢
        exact hbody (.refl body) hends
      | none =>
        simp only [hb] at hends ⊢
        obtain ⟨rfl, rfl⟩ := ends_pure.1 hends
        exact Fits.pure h rfl
    | body d hsts => exact hbody hsts hends

/-- All declarations at file scope are followed to the same count, whatever the order of their
statements. -/
theorem flowDecls_reordered {ids : List DeclId} (hends : (flowDecls u ids).Ends t₀ f t₁)
    (ht₁ : (keepsFaithful u known).rel t₁ t) :
    Fits t (flowDecls u' ids) ρ s fun f' _ _ => f' = f := by
  have hF := keepsFaithful_admitsFlowing u known
  induction ids generalizing t₀ ρ s f with
  | nil =>
    obtain ⟨rfl, -⟩ := ends_pure.1 hends
    exact Fits.pure h rfl
  | cons id rest ih =>
    obtain ⟨f₁, t', hfirst, hends⟩ := ends_bind.1 hends
    obtain ⟨f₂, t'', hrest, hends⟩ := ends_bind.1 hends
    obtain ⟨rfl, rfl⟩ := ends_pure.1 hends
    have hst := ((flowDecl_stays hF id t₀).of_ends hfirst).1
    have htt := ((flowDecls_stays hF rest t').of_ends hrest).1
    have hfirst' := flowDecl_reordered ht hu h hk ht₀ hfirst
      ((keepsFaithful u known).trans htt ht₁)
    refine Fits.bind hfirst' fun g ρ₁ s₁ he hl hg => ?_
    refine Fits.bind (ih he (hk.later hl) ((hst ht₀).1.wellFormed ht₀) hrest)
      fun g' ρ₂ s₂ he₂ _ hg' => ?_
    exact Fits.pure he₂ (by rw [hg, hg'])

/-- A unit is followed with the statements of its bodies in another order. -/
theorem flow_reordered (hends : (flow u).Ends t₀ f t₁) (ht₁ : (keepsFaithful u known).rel t₁ t) :
    Fits t (flow u') ρ s fun f' _ _ => f' = f := by
  rw [flow, hu.topLevel]
  exact flowDecls_reordered ht hu h hk ht₀ hends ht₁

end

/-! ## One unit after another -/

def PointeesLie (s : Session) : Prop := ∀ e ∈ s.pointees.entries, s.LiesBelow e.1 e.2

theorem keysTellNames_skeleton (u : TranslationUnit) :
    u.skeleton.KeysTellNames = u.KeysTellNames := by
  simp [TranslationUnit.KeysTellNames, TranslationUnit.skeleton]

theorem exit_ends {o : OpenUnit} (hs : s.opened = some o) :
    exit.Ends s ⟨⟩ { s with opened := none } := by
  refine ends_bind.2 ⟨s, s, ends_get.2 ⟨rfl, rfl⟩, ?_⟩
  rw [hs]
  exact ends_modify.2 rfl

abbrev entering (u : TranslationUnit) (s : Session) : Session :=
  { s with opened := some ⟨u.id, u.file, [], .empty, .empty⟩ }

theorem enter_ends (hs : s.opened = none) (u : TranslationUnit) :
    (enter u).Ends s ⟨⟩ (entering u s) := by
  refine ends_bind.2 ⟨s, s, ends_get.2 ⟨rfl, rfl⟩, ?_⟩
  rw [hs]
  exact ends_modify.2 rfl

/-- Nothing is known yet of a unit that was just entered. -/
theorem embeds_entering {o : OpenUnit} (u : TranslationUnit) (hid : o.id = u.id)
    (hfile : o.file = u.file) : OpenUnit.Embeds ρ ⟨u.id, u.file, [], .empty, .empty⟩ o where
  id := hid
  file := hfile
  literals _ _ h := nomatch h
  unknownCallees _ _ h := nomatch h

/-- Other units may be open, if what is known of the one is known of the other. -/
theorem Embeds.withOpened (h : s.Embeds ρ t) {o o' : Option OpenUnit}
    (ho : ∀ x', o' = some x' → ∃ x, o = some x ∧ x.Embeds ρ x')
    (hs : Session.WellFormed { s with opened := o }) :
    Embeds ρ { s with opened := o } { t with opened := o' } where
  wellFormed := hs
  options := h.options
  arena := h.arena
  recorded := h.recorded
  index := h.index
  stored anchor := (h.stored anchor).of_arena rfl rfl
  implicits := h.implicits
  declared := h.declared
  pointees := h.pointees
  opened := ho

/-- What is known when a unit is entered: all signatures made so far. -/
theorem faithful_entered {o : OpenUnit} (ho : o.literals = .empty)
    (ho' : o.unknownCallees = .empty) (hbelow : t.PointeesLie)
    (ht : Session.WellFormed { t with opened := some o }) :
    Faithful u (fun key => ∃ set, t.implicits.find? key = some set)
      { t with opened := some o } where
  wellFormed := ht
  pointees := hbelow
  literals o₁ ho₁ e he := by
    obtain rfl := Option.some.inj ho₁
    rw [ho] at he
    cases he
  unknownCallees o₁ ho₁ e he := by
    obtain rfl := Option.some.inj ho₁
    rw [ho'] at he
    cases he
  implicits e he := .inl (OrderedMap.exists_find? he)

/-- A unit is visited, with the statements of its bodies in another order. -/
theorem visit_reordered {t₂ t₃ : Session} (hu : u.Reorders u') (hkeys : u.KeysTellNames)
    (h : s.Embeds ρ t) (hs : s.opened = none) (ht : t.WellFormed) (hbelow : t.PointeesLie)
    (hknown : ∀ key set, t.implicits.find? key = some set →
      ∃ set', s.implicits.find? key = some set')
    (henter : (enter u).Ends t ⟨⟩ t₁) (hflow : (flow u).Ends t₁ f t₂)
    (hexit : exit.Ends t₂ ⟨⟩ t₃) (hcalls : CallsOne u t₂) :
    t₃.PointeesLie ∧ ∃ s₁ s₂ s₃ ρ', (enter u').Ends s ⟨⟩ s₁ ∧ (flow u').Ends s₁ f s₂ ∧
      exit.Ends s₂ ⟨⟩ s₃ ∧ s₃.Embeds ρ' t₃ ∧
        ρ.Agrees ρ' s.solver.cells.size s.arena.size := by
  let known : FunctionKey → Prop := fun key => ∃ set, t.implicits.find? key = some set
  obtain ⟨htt₁, rfl⟩ := (enter_meets u t).of_ends henter
  have henter' := enter_ends hs u'
  have hss₁ := ((enter_meets u' s).of_ends henter').1
  have hentered : (entering u' s).Embeds ρ (entering u t) := h.withOpened
    (fun o' ho' => ⟨_, rfl, Option.some.inj ho' ▸ embeds_entering u' hu.id.symm hu.file.symm⟩)
    (hss₁.wellFormed h.wellFormed)
  have ht₁ := htt₁.wellFormed ht
  have hkept := ((flow_stays (keepsFaithful_admitsFlowing u known) _).of_ends hflow).1
  obtain ⟨hvisits, hdeclared, hfaithful⟩ := hkept ht₁
  have hfaithful := hfaithful (faithful_entered rfl rfl hbelow ht₁)
  obtain ⟨o₂, ho₂, hr⟩ := hvisits.opened _ rfl
  have hvisited : t₂.Visited u known :=
    { hfaithful with isOpen := ⟨o₂, ho₂, hr.id, hr.file⟩, keys := hkeys, callsOne := hcalls }
  have hstands := hentered.follows ht₁ hvisits.toFollows hdeclared fun o' ho' => by
    obtain rfl := Option.some.inj (ho₂.symm.trans ho')
    exact ⟨_, rfl, hr⟩
  obtain ⟨f', ρ', s₂, hflow', he, hl, rfl⟩ := flow_reordered hvisited hu hstands
    (fun key _ _ hkey _ => hkey.elim (hknown key)) ht₁ hflow ((keepsFaithful u known).refl t₂)
  obtain ⟨o, ho, -⟩ := he.opened o₂ ho₂
  have hexit' := exit_ends ho
  obtain ⟨-, rfl⟩ := (exit_meets t₂).of_ends hexit
  have hs₃ := ((exit_meets s₂).of_ends hexit').1.wellFormed he.wellFormed
  exact ⟨hfaithful.pointees, _, s₂, _, ρ', henter', hflow', hexit',
    he.withOpened (by rintro _ ⟨⟩) hs₃, hl.agrees⟩

/-- Each of the sessions that came of `b` stands in the other, under names that keep those of what
`b` has. -/
structure Alike (b s t : Session) : Prop where
  left : b.Follows s
  right : b.Follows t
  forth : ∃ ρ, Renaming.id.Agrees ρ b.solver.cells.size b.arena.size ∧ s.Embeds ρ t
  back : ∃ σ, Renaming.id.Agrees σ b.solver.cells.size b.arena.size ∧ t.Embeds σ s

/-- In a run over the units from `s`, no computed callee of a unit denotes two signatures when the
unit has been followed. -/
def OneCallee : List TranslationUnit → Session → Prop
  | [], _ => True
  | u :: rest, s => ∀ s₁ f s₂ s₃, (enter u).Ends s ⟨⟩ s₁ → (flow u).Ends s₁ f s₂ →
      exit.Ends s₂ ⟨⟩ s₃ → CallsOne u s₂ ∧ OneCallee rest s₃

/-- So it is where every call names its callee. -/
theorem oneCallee_of_named {units : List TranslationUnit}
    (h : ∀ u ∈ units, ∀ call callee args, u.expr call = .ok (.call callee args) →
      u.namedCallee call ≠ .ok none) (s : Session) : OneCallee units s := by
  induction units generalizing s with
  | nil => trivial
  | cons u rest ih =>
    intro s₁ f s₂ s₃ _ _ _
    refine ⟨?_, ih (fun v hv => h v (List.mem_cons_of_mem u hv)) s₃⟩
    intro call callee args view set hx hnone
    exact absurd hnone (h u List.mem_cons_self call callee args hx)

/-- Runs over units that differ in the order of statements go alike. -/
theorem flowUnits_alike {b : Session} {units units' : List TranslationUnit}
    (hunits : List.Forall₂ TranslationUnit.Reorders units units')
    (hkeys : ∀ u ∈ units, u.KeysTellNames) (h : Alike b s t) (hs : s.opened = none)
    (ht : t.opened = none) (hsp : s.PointeesLie) (htp : t.PointeesLie)
    (hone : OneCallee units t) (hone' : OneCallee units' s) {t' : Session}
    (hends : (flowUnits units).Ends t f t') :
    ∃ s', (flowUnits units').Ends s f s' ∧ Alike b s' t' := by
  induction hunits generalizing s t f with
  | nil =>
    obtain ⟨rfl, rfl⟩ := ends_pure.1 hends
    exact ⟨s, ends_pure.2 ⟨rfl, rfl⟩, h⟩
  | @cons u u' units units' hu _ ih =>
    obtain ⟨_, t₁, henter, hends⟩ := ends_bind.1 hends
    obtain ⟨f₁, t₂, hflow, hends⟩ := ends_bind.1 hends
    obtain ⟨_, t₃, hexit, hends⟩ := ends_bind.1 hends
    obtain ⟨f₂, t₄, hrest, hends⟩ := ends_bind.1 hends
    obtain ⟨rfl, rfl⟩ := ends_pure.1 hends
    obtain ⟨hkeysu, hkeys⟩ := List.forall_mem_cons.1 hkeys
    obtain ⟨ρ, hρ, hst⟩ := h.forth
    obtain ⟨σ, hσ, hts⟩ := h.back
    obtain ⟨hcalls, hone⟩ := hone t₁ f₁ t₂ t₃ henter hflow hexit
    obtain ⟨htp', s₁, s₂, s₃, ρ', henter', hflow', hexit', hst', hρ'⟩ := visit_reordered hu hkeysu
      hst hs hts.wellFormed htp
      (fun key set hset => (hts.implicits key set hset).elim fun _ hv => ⟨_, hv.2⟩)
      henter hflow hexit hcalls
    obtain ⟨hcalls', hone'⟩ := hone' s₁ f₁ s₂ s₃ henter' hflow' hexit'
    have hkeysu' : u'.KeysTellNames := by
      rw [hu.congr keysTellNames_skeleton]
      exact hkeysu
    obtain ⟨hsp', r₁, r₂, r₃, σ', henter'', hflow'', hexit'', hts', hσ'⟩ :=
      visit_reordered hu.symm hkeysu' hts ht hst.wellFormed hsp
      (fun key set hset => (hst.implicits key set hset).elim fun _ hv => ⟨_, hv.2⟩)
      henter' hflow' hexit' hcalls'
    obtain rfl := (henter.unique henter'').2
    obtain rfl := (hflow.unique hflow'').2
    obtain rfl := (hexit.unique hexit'').2
    have hvisit {v : TranslationUnit} {w₀ w₁ w₂ w₃ : Session} {g : FlowSummary}
        (hw : w₀.WellFormed) (h₁ : (enter v).Ends w₀ ⟨⟩ w₁) (h₂ : (flow v).Ends w₁ g w₂)
        (h₃ : exit.Ends w₂ ⟨⟩ w₃) : w₀.Follows w₃ := by
      have h₀₁ := ((enter_meets v w₀).of_ends h₁).1
      have h₁₂ := ((flow_meets v (h₀₁.wellFormed hw)).of_ends h₂).1
      have h₁₂ : w₁.Visits w₂ := h₁₂
      exact (h₀₁.trans h₁₂.toFollows).trans ((exit_meets w₂).of_ends h₃).1
    have halike : Alike b s₃ t₃ := by
      refine ⟨h.left.trans (hvisit hst.wellFormed henter' hflow' hexit'),
        h.right.trans (hvisit hts.wellFormed henter hflow hexit), ⟨ρ', ?_, hst'⟩, ⟨σ', ?_, hts'⟩⟩
      · exact hρ.trans hρ' h.left.solver.size_le h.left.arena.size_le
      · exact hσ.trans hσ' h.right.solver.size_le h.right.arena.size_le
    obtain ⟨s', hrest', halike'⟩ := ih hkeys halike (opened_of_exit hexit') (opened_of_exit hexit)
      hsp' htp' hone hone' hrest
    refine ⟨s', ?_, halike'⟩
    refine ends_bind.2 ⟨⟨⟩, s₁, henter', ends_bind.2 ⟨f₁, s₂, hflow', ?_⟩⟩
    exact ends_bind.2 ⟨⟨⟩, s₃, hexit', ends_bind.2 ⟨f₂, s', hrest', ends_pure.2 ⟨rfl, rfl⟩⟩⟩

end Session

end CheckedPointers
