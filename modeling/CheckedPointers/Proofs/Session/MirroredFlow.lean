import CheckedPointers.Proofs.Session.Completion
import CheckedPointers.Proofs.Session.MirroredDenotation

/-!
Values followed in a second run. What the first run recorded on the way to `t` is recorded there,
so the second run of a statement records nothing else, in whatever order statements are followed.
-/
namespace CheckedPointers

open Op

namespace Op

open Session (Later)

variable {α β γ δ : Type} {R : Frame} {t t₀ t₁ s s' : Session} {ρ ρ' : Renaming} {x : Op α}
  {y : Op β} {f : α → Op γ} {g : β → Op δ} {J : α → β → Renaming → Session → Prop}
  {K : γ → δ → Renaming → Session → Prop}

/-- Both operations change the session in no other way, wherever they start. -/
theorem Mirrors.bind_stays (hm : Stays R x) (hf : ∀ a, Stays R (f a))
    (hx : Mirrors R t x t₀ y ρ s J)
    (h : ∀ a t₁ b ρ' s', x.Ends t₀ a t₁ → R.rel t₀ t₁ → R.rel t₁ t → s'.Embeds ρ' t →
      Later ρ ρ' s s' → J a b ρ' s' → Mirrors R t (f a) t₁ (g b) ρ' s' K) :
    Mirrors R t (x >>= f) t₀ (y >>= g) ρ s K :=
  Mirrors.bind (hm t₀).run hx (fun a t₁ _ _ => hf a t₁) fun a t₁ b ρ' s' ht ⟨hends, _⟩ =>
    h a t₁ b ρ' s' hends ht

/-- The same things are done in the same order. -/
theorem Mirrors.forM {g : γ → Op PUnit} {l : List γ} (hg : ∀ c, Stays R (g c))
    (h : s.Embeds ρ t)
    (hstep : ∀ c ∈ l, ∀ t₁ ρ' s', R.rel t₀ t₁ → s'.Embeds ρ' t → Later ρ ρ' s s' →
      Mirrors R t (g c) t₁ (g c) ρ' s' fun _ _ _ _ => True) :
    Mirrors R t (l.forM g) t₀ (l.forM g) ρ s fun _ _ _ _ => True := by
  induction l generalizing t₀ ρ s with
  | nil => exact Mirrors.pure h trivial
  | cons c rest ih =>
    change Mirrors R t (g c >>= fun _ => rest.forM g) t₀ (g c >>= fun _ => rest.forM g) ρ s _
    refine Mirrors.bind_stays (hg c) (fun _ => Stays.forM fun c _ => hg c)
      (hstep c List.mem_cons_self t₀ ρ s (R.refl t₀) h (.refl ρ s)) ?_
    intro _ t₁ _ ρ₁ s₁ _ hst _ he hl _
    refine ih he fun d hd t₂ ρ₂ s₂ hst₂ he₂ hl₂ => ?_
    exact hstep d (List.mem_cons_of_mem c hd) t₂ ρ₂ s₂ (R.trans hst hst₂) he₂ (hl.trans hl₂)

/-- What is given up in the first run is given up in the second. -/
theorem Mirrors.attempt {x y : Op PUnit} {J : PUnit → PUnit → Renaming → Session → Prop}
    (h : Mirrors R t x t₀ y ρ s J) :
    Mirrors R t (attempt x) t₀ (attempt y) ρ s fun a b _ _ => a = b := by
  rcases hx : x t₀ with ⟨(_ | e) | a, t₁⟩ <;> simp only [Mirrors, attempt_run, hx] at h ⊢
  · intro ht
    obtain ⟨ρ', s', hy, he, hl⟩ := h ht
    exact ⟨false, ρ', s', ends_attempt.2 (.inr ⟨rfl, e, hy⟩), he, hl, rfl⟩
  · intro ht
    obtain ⟨b, ρ', s', hy, he, hl, -⟩ := h ht
    exact ⟨true, ρ', s', ends_attempt.2 (.inl ⟨rfl, hy⟩), he, hl, rfl⟩

end Op

namespace Session

variable {s s' t t₀ t₁ : Session} {ρ ρ' : Renaming} {u : TranslationUnit}
  {known : FunctionKey → Prop} {view : Viewpoint} {e : ExprId}

abbrev Anything {α β : Type} : α → β → Renaming → Session → Prop := fun _ _ _ _ => True

/-- The first run keeps to what was recorded. -/
theorem extends_of_records (ht₀ : t₀.WellFormed) :
    ∀ t₁, t₀.Records t₁ → (keepsFaithful u known).rel t₁ t → t₁.Extends t :=
  fun _ hst ht₁ => (ht₁ (hst.creates.wellFormed ht₀)).1.toExtends

/-! ## Bounds -/

abbrev boundHead (v : VarId) : Op PUnit := do
  match ((← get).arena.pointer? v).bind (·.atoms.head?) with
  | some a => discard (addConstraint (.atLeast a .arr))
  | none => return ()

def HeadBounded (s : Session) (v : VarId) : Prop :=
  ∀ a, (s.arena.pointer? v).bind (·.atoms.head?) = some a → s.solver.Says (.atLeast a .arr)

/-- Bounding the head of a pointer bounds its outermost level. -/
theorem boundHead_stated (v : VarId) (s : Session) :
    Meets .records (boundHead v) s fun _ t => t.HeadBounded v := by
  refine Meets.bind_get ?_
  split
  · next a ha =>
    have hsaid : Meets .records (discard (addConstraint (.atLeast a .arr))) s fun _ t =>
        t.solver.Says (.atLeast a .arr) := Meets.discard (addConstraint_stated _ s)
    refine hsaid.mono fun _ t hst hsaid => ?_
    have hst : s.Records t := hst
    intro b hb
    rw [hst.arena, ha] at hb
    exact Option.some.inj hb ▸ hsaid
  · next hnone =>
    refine Meets.pure fun b hb => ?_
    rw [hnone] at hb
    cases hb

/-- The bound on a head is no news where the head is bounded. -/
theorem boundHead_notes (h : s.Embeds ρ t) {v : VarId} (hv : v < s.arena.size)
    (hbound : t.HeadBounded (ρ.var v)) : Notes t (boundHead v) ρ s := by
  refine Fits.bind_get ?_
  split
  · next a ha =>
    obtain ⟨p, hp, hhead⟩ := Option.bind_eq_some_iff.1 ha
    have hknown := h.wellFormed.arena.atom_lt hp (List.mem_of_head? hhead)
    refine (addConstraint_notes (c := .atLeast a .arr) h hknown (hbound _ ?_)).discard
    simp [h.arena.pointer?_eq hv, hp, PointerVariable.rename, hhead]
  · exact Notes.pure h

/-! ## Assignments -/

/-- The open unit may note other candidates. -/
theorem setCandidates_fits {o o' : OpenUnit} (h : s.Embeds ρ t) (ho : s.opened = some o)
    (ho' : t.opened = some o') (found : List (DeclId × List ExprId)) :
    Fits t (setOpen { o with candidates := found }) ρ s fun _ ρ' s' =>
      ρ' = ρ ∧ s'.opened = some { o with candidates := found } := by
  obtain ⟨o₁, ho₁, hopened⟩ := h.opened o' ho'
  obtain rfl := Option.some.inj (ho.symm.trans ho₁)
  have hset : s.Visits { s with opened := some { o with candidates := found } } :=
    (setCandidates_meets found ho).1
  have hopened : OpenUnit.Embeds ρ { o with candidates := found } o' :=
    ⟨hopened.id, hopened.file, hopened.literals, hopened.unknownCallees⟩
  exact ⟨⟨⟩, ρ, _, rfl, h.reopen hset.wellFormed ho' hopened, hset.toFollows.later ρ, rfl, rfl⟩

/-- Sizes of allocations are noted on either side without a trace in what is compared. -/
theorem noteAllocation_fits {o' : OpenUnit} (h : s.Embeds ρ t) (ho' : IsOpen u o' t)
    (target : DeclId) (size : ExprId) :
    Fits t (do flagArray u target; addArraySize u target size) ρ s fun _ _ _ => True := by
  obtain ⟨o, ho, -⟩ := h.isOpen ho'
  have hflag : Fits t (flagArray u target) ρ s fun _ ρ' s' =>
      ρ' = ρ ∧ s'.opened = some (o.addCandidate target) := by
    apply Fits.bind_current ho
    unfold OpenUnit.addCandidate
    split
    · exact setCandidates_fits h ho.1 ho'.1 o.candidates
    · exact setCandidates_fits h ho.1 ho'.1 _
  refine Fits.bind hflag fun _ ρ₁ s₁ he _ ⟨_, hopened⟩ => ?_
  have hid : (o.addCandidate target).id = u.id ∧ (o.addCandidate target).file = u.file := by
    unfold OpenUnit.addCandidate
    split <;> exact ho.2
  refine Fits.bind_current ⟨hopened, hid⟩ ?_
  rw [if_pos (isCandidate_addCandidate o target)]
  exact (setCandidates_fits he hopened ho'.1 _).mono fun _ _ _ _ _ _ => trivial

section

variable (ht : t.Visited u known) (ht₀ : t₀.WellFormed) (h : s.Embeds ρ t) (hk : s.Knows u known)

include ht h

theorem noteAllocation_mirrors (target : DeclId) (value : ExprId) :
    Mirrors (keepsFaithful u known) t (noteAllocation u target value) t₀
      (noteAllocation u target value) ρ s Anything := by
  apply Mirrors.bind_lift
  intro size _
  cases size with
  | none => exact Mirrors.pure h trivial
  | some size =>
    obtain ⟨o', ho'⟩ := ht.isOpen
    have hpersists : Persists (do flagArray u target; addArraySize u target size) := by
      apply Persists.bind (Persists.bind_current fun _ => .of_modify)
      intro _
      apply Persists.bind_current
      intro o
      split
      · exact .of_modify
      · exact Persists.bind_lift fun _ _ => .fault
    exact Mirrors.of_fits (hpersists t₀) fun _ _ _ _ => noteAllocation_fits h ho' target size

include ht₀ hk

/-- A conversion makes wild here what it makes wild there. -/
theorem flowThroughCast_mirrors {targets targets' : VarSet} (hset : SameVars targets' targets ρ s)
    (ty : CType) (operand : ExprId) :
    Mirrors (keepsFaithful u known) t (flowThroughCast u view targets' ty operand) t₀
      (flowThroughCast u view targets ty operand) ρ s Anything := by
  have hF := keepsFaithful_admitsFlowing u known
  refine Mirrors.of_rel (flowThroughCast_stays hF targets' ty t₀) fun hkept => ?_
  have hoptions : t₀.options = s.options := (hkept ht₀).1.options.symm.trans h.options
  apply Mirrors.bind_get
  rw [hoptions]
  apply Mirrors.bind_lift
  intro allowed _
  split
  · exact Mirrors.pure h trivial
  · refine Mirrors.bind_stays (hF.denotes operand view) ?_
      (denote_mirrors ht operand view ht₀ h hk) ?_
    · intro values
      have hequate : Stays (keepsFaithful u known) (equateSets targets' values) :=
        recording_stays hF fun s => equateSets_meets targets' values s
      apply Stays.bind_lift
      intro declared _
      dsimp only
      split
      · split
        · apply (recording_stays hF fun s => boundSet_meets values .leastSafe s).discard.bind
          exact fun _ => hequate
        · exact hequate
      · exact hequate
    · intro values t₁ own ρ₁ s₁ _ hst _ he hl hsame
      have ht₁ := (hst ht₀).1.wellFormed ht₀
      have hequate {t₂ s₂ : Session} (ht₂ : t₂.WellFormed) (he₂ : s₂.Embeds ρ₁ t)
          (hgrows : s₁.arena.Grows s₂.arena) : Mirrors (keepsFaithful u known) t
            (equateSets targets' values) t₂ (equateSets targets own) ρ₁ s₂ Anything := by
        have htargets := hset.later hl
        exact (equateSets_mirrors he₂ ht.wellFormed (htargets.1.grows hgrows)
          (hsame.1.grows hgrows) htargets.2 hsame.2 (extends_of_records ht₂)).mono
          fun _ _ _ _ _ _ _ => trivial
      apply Mirrors.bind_lift
      intro declared _
      dsimp only
      split
      · split
        · refine Mirrors.bind_stays
            (recording_stays hF fun s => boundSet_meets values .leastSafe s).discard
            (fun _ => recording_stays hF fun s => equateSets_meets targets' values s)
            (boundSet_mirrors he hsame.1 hsame.2 (extends_of_records ht₁)) ?_
          intro _ t₂ _ ρ₂ s₂ _ hst₂ _ he₂ _ ⟨hρ, hrecords⟩
          subst hρ
          exact hequate ((hst₂ ht₁).1.wellFormed ht₁) he₂ (hrecords.arena ▸ .refl _)
        · exact hequate ht₁ he (.refl _)
      · exact hequate ht₁ he (.refl _)

/-- A value that has flowed there flows here into the targets that correspond. -/
theorem flowInto_mirrors {targets targets' : VarSet} (hset : SameVars targets' targets ρ s)
    (named : Option DeclId) (value : ExprId) :
    Mirrors (keepsFaithful u known) t (flowInto u view targets' named value) t₀
      (flowInto u view targets named value) ρ s Anything := by
  have hF := keepsFaithful_admitsFlowing u known
  have hvalue {t₁ s₁ : Session} {ρ₁ : Renaming} (ht₁ : t₁.WellFormed) (he : s₁.Embeds ρ₁ t)
      (hk₁ : s₁.Knows u known) (hset₁ : SameVars targets' targets ρ₁ s₁) :
      Mirrors (keepsFaithful u known) t (flowInto u view targets' none value) t₁
        (flowInto u view targets none value) ρ₁ s₁ Anything := by
    refine Mirrors.of_rel (flowInto_stays hF targets' none t₁) fun hkept => ?_
    have hoptions : t₁.options = s₁.options := (hkept ht₁).1.options.symm.trans he.options
    apply Mirrors.bind_lift
    intro core _
    apply Mirrors.bind_lift
    intro x _
    split
    · exact flowThroughCast_mirrors ht ht₁ he hk₁ hset₁ _ _
    · apply Mirrors.bind_get
      rw [hoptions]
      apply Mirrors.bind_lift
      intro allowed _
      split
      · exact Mirrors.pure he trivial
      · refine Mirrors.bind_stays (hF.denotes value view)
          (fun values => recording_stays hF fun s => equateSets_meets targets' values s)
          (denote_mirrors ht value view ht₁ he hk₁) ?_
        intro values t₂ own ρ₂ s₂ _ hst _ he₂ hl hsame
        have htargets := hset₁.later hl
        exact (equateSets_mirrors he₂ ht.wellFormed htargets.1 hsame.1 htargets.2 hsame.2
          (extends_of_records ((hst ht₁).1.wellFormed ht₁))).mono fun _ _ _ _ _ _ _ => trivial
  cases named with
  | none => exact hvalue ht₀ h hk hset
  | some target =>
    refine Mirrors.bind_stays (noteAllocation_stays hF.candidates target)
      (fun _ => flowInto_stays hF targets' none) (noteAllocation_mirrors ht h target value) ?_
    intro _ t₁ _ ρ₁ s₁ _ hst _ he hl _
    exact hvalue ((hst ht₀).1.wellFormed ht₀) he (hk.later hl) (hset.later hl)

/-! ## Subscripts -/

omit ht hk in
/-- What gets bounds in the first run gets them in the second. -/
theorem boundHeads_mirrors {set set' : VarSet} (hset : SameVars set' set ρ s)
    (hholds : Holds set' t₀) :
    Mirrors (keepsFaithful u known) t (set'.members.forM boundHead) t₀ (set.members.forM boundHead)
      ρ s Anything := by
  have hpersists : Persists (set'.members.forM boundHead) := by
    apply Persists.forM
    intro v _
    apply Persists.bind_get
    intro s
    split
    · exact (addConstraint_persists _).discard
    · exact .pure
  have hstated := Meets.forM (P := fun v z => z.HeadBounded v) (s := t₀) (l := set'.members)
    (fun v z w (hzw : z.Records w) hbound a ha => by
      rw [hzw.arena] at ha
      exact (hbound a ha).grows hzw.solver)
    fun v _ w _ => boundHead_stated v w
  refine Mirrors.of_fits (hpersists t₀) fun _ t₁ hends ht₁ => ?_
  obtain ⟨hst, hbounded⟩ := hstated.of_ends hends
  have hst : t₀.Records t₁ := hst
  have hext := extends_of_records ht₀ t₁ hst ht₁
  refine (Notes.forM h fun v hv s' he hs => ?_).mono fun _ _ _ _ _ _ => trivial
  have hmem := (hset.2 _).2 ⟨v, hv, rfl⟩
  refine boundHead_notes he (hs.arena ▸ hset.1 v hv) fun a ha => ?_
  rw [hext.arena.pointer?_eq (hst.arena ▸ hholds _ hmem)] at ha
  exact (hbounded _ hmem a ha).grows hext.solver

/-- A subscripted base that has bounds there gets them here. -/
theorem needBounds_mirrors (base : ExprId) :
    Mirrors (keepsFaithful u known) t (needBounds u view base) t₀ (needBounds u view base) ρ s
      Anything := by
  have hF := keepsFaithful_admitsFlowing u known
  have hbounds (set : VarSet) : Stays (keepsFaithful u known) (set.members.forM boundHead) :=
    Stays.forM fun v _ => recording_stays hF (boundHead_stated v)
  refine Mirrors.bind (denote_recalls_of (keepsFaithful_admitsDenoting u known) base view ht₀)
    (denote_mirrors ht base view ht₀ h hk) (fun set t₁ _ _ => hbounds set t₁) ?_
  intro set t₁ own ρ₁ s₁ hst hset _ he _ hsame
  exact boundHeads_mirrors ((hst ht₀).1.wellFormed ht₀) he hsame hset.1

/-! ## Calls -/

/-- Arguments go to slots that correspond, and those without a slot are wild on both sides. -/
theorem passArguments_mirrors {slots slots' : List VarSet}
    (hslots : List.Forall₂ (fun slot' slot => SameVars slot' slot ρ s) slots' slots)
    (args : List ExprId) :
    Mirrors (keepsFaithful u known) t (passArguments u view slots' args) t₀
      (passArguments u view slots args) ρ s Anything := by
  have hF := keepsFaithful_admitsFlowing u known
  induction args generalizing slots slots' t₀ ρ s with
  | nil =>
    rw [passArguments, passArguments]
    exact Mirrors.pure h trivial
  | cons arg rest ih =>
    rw [passArguments, passArguments]
    refine Mirrors.bind_stays (hF.denotes arg view) ?_ (denote_mirrors ht arg view ht₀ h hk) ?_
    · intro values
      cases slots' with
      | nil =>
        apply (recording_stays hF fun s => boundSet_meets values .leastSafe s).discard.bind
        exact fun _ => passArguments_stays hF [] rest
      | cons slot slots =>
        apply (recording_stays hF fun s => equateSets_meets slot values s).bind
        exact fun _ => passArguments_stays hF slots rest
    · intro values t₁ own ρ₁ s₁ _ hst _ he hl hsame
      have ht₁ := (hst ht₀).1.wellFormed ht₀
      have hext : ∀ t₂, t₁.Records t₂ → (keepsFaithful u known).rel t₂ t → t₂.Extends t :=
        extends_of_records ht₁
      cases hslots with
      | nil =>
        refine Mirrors.bind_stays
          (recording_stays hF fun s => boundSet_meets values .leastSafe s).discard
          (fun _ => passArguments_stays hF [] rest) (boundSet_mirrors he hsame.1 hsame.2 hext) ?_
        intro _ t₂ _ ρ₂ s₂ _ hst₂ _ he₂ hl₂ _
        exact ih ((hst₂ ht₁).1.wellFormed ht₁) he₂ ((hk.later hl).later hl₂) .nil
      | @cons slot' slot slots' slots hslot hrest =>
        have hslot := hslot.later hl
        refine Mirrors.bind_stays
          (recording_stays hF fun s => equateSets_meets slot' values s)
          (fun _ => passArguments_stays hF slots' rest)
          (equateSets_mirrors he ht.wellFormed hslot.1 hsame.1 hslot.2 hsame.2 hext) ?_
        intro _ t₂ _ ρ₂ s₂ _ hst₂ _ he₂ hl₂ _
        exact ih ((hst₂ ht₁).1.wellFormed ht₁) he₂ ((hk.later hl).later hl₂)
          (hrest.imp fun _ _ hslot => (hslot.later hl).later hl₂)

abbrev SameLast (t : Session) (set' set : VarSet) (ρ : Renaming) (s : Session) : Prop :=
  Holds set s ∧ (t.arena.signatures set').getLast? =
    (s.arena.signatures set).getLast?.map (FunctionVariable.rename ρ)

omit ht ht₀ hk in
/-- Where there is one signature at most it is the last one in whatever order. -/
theorem SameVars.last {set set' : VarSet} (hset : SameVars set' set ρ s)
    (hone : ∀ f ∈ t.arena.signatures set', ∀ g ∈ t.arena.signatures set', f = g) :
    SameLast t set' set ρ s := by
  refine ⟨hset.1, ?_⟩
  have hlook (v : VarId) (hv : v ∈ set) :=
    h.arena.reachableFunction?_eq h.wellFormed.arena (hset.1 v hv)
  have hmem (f : FunctionVariable) (hf : f ∈ s.arena.signatures set) :
      f.rename ρ ∈ t.arena.signatures set' := by
    obtain ⟨v, hv, hf⟩ := List.mem_filterMap.1 hf
    refine List.mem_filterMap.2 ⟨ρ.var v, (hset.2 _).2 ⟨v, hv, rfl⟩, ?_⟩
    rw [hlook v hv, hf]
    rfl
  cases hlast : (s.arena.signatures set).getLast? with
  | some f =>
    cases hlast' : (t.arena.signatures set').getLast? with
    | some g =>
      exact congrArg some
        (hone _ (List.mem_of_getLast? hlast') _ (hmem f (List.mem_of_getLast? hlast)))
    | none =>
      have hnil := List.getLast?_eq_none_iff.1 hlast'
      exact absurd (hmem f (List.mem_of_getLast? hlast)) (by simp [hnil])
  | none =>
    have hnil := List.getLast?_eq_none_iff.1 hlast
    refine List.getLast?_eq_none_iff.2 (List.eq_nil_iff_forall_not_mem.2 fun g hg => ?_)
    obtain ⟨w, hw, hg⟩ := List.mem_filterMap.1 hg
    obtain ⟨v, hv, rfl⟩ := (hset.2 w).1 hw
    rw [hlook v hv] at hg
    obtain ⟨f, hf, -⟩ := Option.map_eq_some_iff.1 hg
    have hfound : f ∈ s.arena.signatures set := List.mem_filterMap.2 ⟨v, hv, hf⟩
    simp [hnil] at hfound

/-- The callee of a call denotes the same last signature on both sides. -/
theorem calleeVariables_mirrors {call callee : ExprId} {args : List ExprId}
    (hx : u.expr call = .ok (.call callee args)) :
    Mirrors (keepsFaithful u known) t (calleeVariables u view call callee) t₀
      (calleeVariables u view call callee) ρ s (SameLast t) := by
  have hR := keepsFaithful_admitsDenoting u known
  apply Mirrors.bind_lift
  intro target htarget
  split
  · apply Mirrors.bind_lift
    intro d _
    split
    · exact (denoteDecl_mirrors ht ht₀ h hk _ .declaration).mono fun _ _ _ _ _ _ htracks =>
        ⟨htracks.holds, htracks.last⟩
    · exact Mirrors.unresolved h
  · refine ((denote_mirrors ht callee view ht₀ h hk).meets (denote_recalls_of hR callee view ht₀)
      (Q := fun set => (denote u callee view).Ends t set t)
      fun set t₁ _ ht₁ hset => hset.2 t ht₁).mono ?_
    intro set own ρ' s' he _ hsame
    exact hsame.2.last he (ht.callsOne call callee args view set hx htarget hsame.1)

omit ht ht₀ hk in
/-- The slots of a signature stand where it stands. -/
theorem params_sameVars {set : VarSet} {f : FunctionVariable} (hf : f ∈ s.arena.signatures set) :
    List.Forall₂ (fun slot' slot => SameVars slot' slot ρ s) (f.rename ρ).params f.params := by
  obtain ⟨v, -, hv⟩ := List.mem_filterMap.1 hf
  obtain ⟨w, hw⟩ := Arena.function?_of_reachableFunction? hv
  rw [FunctionVariable.rename, List.forall₂_map_left_iff, List.forall₂_same]
  intro slot hslot
  refine ⟨fun x hx => ?_, .rename slot⟩
  exact Arena.lt_of_isPointer
    ((h.wellFormed.arena.slots hw (List.mem_cons_of_mem _ hslot)).isPointer hx)

/-- The arguments of a call go to the same signature on both sides. -/
theorem followCall_mirrors {call callee : ExprId} {args : List ExprId}
    (hx : u.expr call = .ok (.call callee args)) :
    Mirrors (keepsFaithful u known) t (followCall u view call callee args) t₀
      (followCall u view call callee args) ρ s Anything := by
  have hF := keepsFaithful_admitsFlowing u known
  refine Mirrors.of_rel (followCall_stays hF call args t₀) fun hkept => ?_
  have hoptions : t₀.options = s.options := (hkept ht₀).1.options.symm.trans h.options
  apply Mirrors.bind_get
  rw [hoptions]
  apply Mirrors.bind_lift
  intro allowed _
  split
  · exact Mirrors.pure h trivial
  · have hfound := (calleeVariables_recalls u view call callee ht₀).narrow
      (calleeVariables_stays hF call t₀) ht₀ fun hs hst => (hst hs).1
    refine Mirrors.bind hfound (calleeVariables_mirrors ht ht₀ h hk hx) ?_ ?_
    · intro candidates t₁ _ _
      refine Meets.bind_get ?_
      dsimp only
      split
      · exact passArguments_stays hF _ args t₁
      · exact Meets.pure trivial
    · intro candidates t₁ own ρ₁ s₁ hst hset ht₁ he hl hlast
      have hwf := (hst ht₀).1.wellFormed ht₀
      have hlast := hlast.2
      rw [Arena.signatures, reachableFunctions_eq hwf hset.1 (ht₁ hwf).1.toExtends] at hlast
      apply Mirrors.bind_get
      dsimp only
      rw [hlast]
      cases hown : (s₁.arena.signatures own).getLast? with
      | some f =>
        rw [Arena.signatures] at hown
        rw [hown]
        exact passArguments_mirrors ht hwf he (hk.later hl)
          (params_sameVars he (List.mem_of_getLast? hown)) args
      | none =>
        rw [Arena.signatures] at hown
        rw [hown]
        exact Mirrors.pure he trivial

/-! ## Expressions and statements -/

/-- What a node records there is recorded here: one case for each kind of node. -/
theorem followNode_mirrors {e : ExprId} {x : Expr} (hx : u.expr e = .ok x) :
    Mirrors (keepsFaithful u known) t (followNode u view e x) t₀ (followNode u view e x) ρ s
      Anything := by
  have hF := keepsFaithful_admitsFlowing u known
  cases x with
  | subscript base index =>
    apply Mirrors.bind_lift
    intro zero _
    split
    · exact needBounds_mirrors ht ht₀ h hk base
    · exact Mirrors.pure h trivial
  | binary op lhs rhs =>
    cases op with
    | assign =>
      refine Mirrors.bind_stays (hF.denotes lhs view) (fun targets => Stays.bind_lift
        fun named _ => flowInto_stays hF targets named) (denote_mirrors ht lhs view ht₀ h hk) ?_
      intro targets t₁ own ρ₁ s₁ _ hst _ he hl hsame
      apply Mirrors.bind_lift
      intro named _
      exact flowInto_mirrors ht ((hst ht₀).1.wellFormed ht₀) he (hk.later hl) hsame named rhs
    | _ => exact Mirrors.pure h trivial
  | call callee args => exact followCall_mirrors ht ht₀ h hk hx
  | stringLiteral _ =>
    exact Mirrors.discard ((denote_mirrors ht e view ht₀ h hk).mono fun _ _ _ _ _ _ _ => trivial)
  | _ => exact Mirrors.pure h trivial

/-- What a whole expression records there is recorded here. -/
theorem followWithin_mirrors (n : Nat) (e : ExprId) :
    Mirrors (keepsFaithful u known) t (followWithin u view n e) t₀ (followWithin u view n e) ρ s
      Anything := by
  have hF := keepsFaithful_admitsFlowing u known
  induction n generalizing e t₀ ρ s with
  | zero => exact Mirrors.unresolved h
  | succ n ih =>
    apply Mirrors.bind_lift
    intro x hx
    refine Mirrors.bind_stays (followNode_stays hF x) (fun _ => Stays.forM fun o _ =>
      followWithin_stays hF n) (followNode_mirrors ht ht₀ h hk hx) ?_
    intro _ t₁ _ ρ₁ s₁ _ hst _ he hl _
    have ht₁ := (hst ht₀).1.wellFormed ht₀
    refine Mirrors.forM (fun o => followWithin_stays hF n) he fun o _ t₂ ρ₂ s₂ hst₂ he₂ hl₂ => ?_
    exact ih ((hst₂ ht₁).1.wellFormed ht₁) he₂ ((hk.later hl).later hl₂) o

/-- A value of an initializer flows on both sides. -/
theorem followInitializer_mirrors (var : DeclId) (init : ExprId) :
    Mirrors (keepsFaithful u known) t (followInitializer u view var init) t₀
      (followInitializer u view var init) ρ s Anything := by
  have hF := keepsFaithful_admitsFlowing u known
  have hfollow : Stays (keepsFaithful u known) (followWithin u view (expressionLimit + 1) init) :=
    followWithin_stays hF _
  refine Mirrors.bind_stays (hF.denotesDecl var view) (fun targets =>
    (flowInto_stays hF targets (some var)).bind fun _ => hfollow)
    (denoteDecl_mirrors ht ht₀ h hk var view) ?_
  intro targets t₁ own ρ₁ s₁ _ hst _ he hl htracks
  have ht₁ := (hst ht₀).1.wellFormed ht₀
  have hk₁ := hk.later hl
  refine Mirrors.bind_stays (flowInto_stays hF targets (some var)) (fun _ => hfollow)
    (flowInto_mirrors ht ht₁ he hk₁ ⟨htracks.holds, htracks.images⟩ (some var) init) ?_
  intro _ t₂ _ ρ₂ s₂ _ hst₂ _ he₂ hl₂ _
  exact followWithin_mirrors ht ((hst₂ ht₁).1.wellFormed ht₁) he₂ (hk₁.later hl₂) _ init

omit ht hk in
theorem declaredReturns_mirrors (func : DeclId) :
    Mirrors (keepsFaithful u known) t (declaredReturns u func) t₀ (declaredReturns u func) ρ s
      SameVars := by
  have hR := keepsFaithful_admitsDenoting u known
  refine Mirrors.bind (storedFor_recalls_of hR func ht₀) (storedFor_mirrors ht₀ h func)
    (fun _ _ _ _ => Meets.bind_get (.pure trivial)) ?_
  intro stored t₁ own ρ₁ s₁ hst hset ht₁ he _ htracks
  have hext := (ht₁ ((hst ht₀).1.wellFormed ht₀)).1.toExtends
  refine Mirrors.bind_get (Mirrors.pure he ?_)
  refine returns_sameVars ⟨htracks.holds, htracks.images⟩ (fun v hv => ?_) fun f hf v hv => ?_
  · rw [← hext.arena.function?_eq (hset.1 _ ((htracks.images _).2 ⟨v, hv, rfl⟩))]
    exact he.arena.function?_eq (htracks.holds v hv)
  · obtain ⟨w, -, hw⟩ := List.mem_filterMap.1 hf
    exact Arena.lt_of_isPointer ((he.wellFormed.arena.slots hw List.mem_cons_self).isPointer hv)

/-- A returned value flows on both sides. -/
theorem followReturn_mirrors (func : DeclId) (value : ExprId) :
    Mirrors (keepsFaithful u known) t (followReturn u func value) t₀ (followReturn u func value) ρ s
      Anything := by
  have hF := keepsFaithful_admitsFlowing u known
  have hreturns : Stays (keepsFaithful u known) (declaredReturns u func) :=
    (storedFor_stays func).bind fun _ => Stays.bind_get fun _ => .pure
  have hfollow :
      Stays (keepsFaithful u known) (followWithin u .body (expressionLimit + 1) value) :=
    followWithin_stays hF _
  refine Mirrors.bind_stays hreturns (fun returns =>
    (flowInto_stays hF returns none).bind fun _ => hfollow) (declaredReturns_mirrors ht₀ h func) ?_
  intro returns t₁ own ρ₁ s₁ _ hst _ he hl hsame
  have ht₁ := (hst ht₀).1.wellFormed ht₀
  have hk₁ := hk.later hl
  refine Mirrors.bind_stays (flowInto_stays hF returns none) (fun _ => hfollow)
    (flowInto_mirrors ht ht₁ he hk₁ hsame none value) ?_
  intro _ t₂ _ ρ₂ s₂ _ hst₂ _ he₂ hl₂ _
  exact followWithin_mirrors ht ((hst₂ ht₁).1.wellFormed ht₁) he₂ (hk₁.later hl₂) _ value

/-- A statement does in a second run what it did in the first. -/
theorem followStmt_mirrors (func : DeclId) (st : Stmt) :
    Mirrors (keepsFaithful u known) t (followStmt u func st) t₀ (followStmt u func st) ρ s
      Anything := by
  cases st with
  | expr e => exact followWithin_mirrors ht ht₀ h hk _ e
  | ret value =>
    cases value with
    | some value => exact followReturn_mirrors ht ht₀ h hk func value
    | none => exact Mirrors.pure h trivial
  | block _ => exact Mirrors.pure h trivial
  | decl d =>
    apply Mirrors.bind_lift
    intro p _
    split
    · exact followInitializer_mirrors ht ht₀ h hk d _
    · exact Mirrors.pure h trivial

end

/-- A statement is given up in a second run if it was in the first. -/
theorem countStatement_mirrors {R : Frame} {x y : Op PUnit} (hx : Stays R x)
    (hxy : Mirrors R t x t₀ y ρ s Anything) :
    Mirrors R t (countStatement x) t₀ (countStatement y) ρ s fun a b _ _ => a = b := by
  refine Mirrors.bind_stays hx.attempt (fun b => ?_) hxy.attempt ?_
  · split <;> exact .pure
  · intro a t₁ b ρ₁ s₁ _ _ _ he _ hab
    subst hab
    split <;> exact Mirrors.pure he rfl

end Session

end CheckedPointers
