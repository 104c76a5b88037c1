import CheckedPointers.Proofs.Analysis.Transplanting

/-!
Units followed in one order and in another. What one order left remembers each of its units; so a
unit that is followed in the other order, whenever its turn comes, finds there all that it makes and
records.
-/
namespace CheckedPointers

open Op TranslationUnit

namespace TranslationUnit

variable {u w : TranslationUnit} {units : List TranslationUnit} {f g a b : DeclId}
  {key : FunctionKey}

/-- Keys that tell functions of the program apart tell names apart in each unit. -/
theorem Concordant.keysTellNames (h : Concordant units) (hu : u ∈ units) : u.KeysTellNames := by
  intro d hd e he hfun hfun' hkey
  obtain ⟨i, hi⟩ := Array.mem_iff_getElem?.1 hd
  obtain ⟨j, hj⟩ := Array.mem_iff_getElem?.1 he
  have hmem := Session.mem_functionDecls hu (decl_eq_ok.2 hi) hfun
  have hmem' := Session.mem_functionDecls hu (decl_eq_ok.2 hj) hfun'
  exact Decl.eq_of_outline (g := Decl.name) (fun _ => rfl)
    (h.listing.agree u hu u hu d hd e he ((h.keys d hmem e hmem').1.1 hkey)).1

/-- Units that ask for a signature under one key ask for the same one. -/
theorem Asks.newFunction_eq (h : Concordant units) (hu : u ∈ units) (hw : w ∈ units)
    (ha : u.Asks f key a) (hb : w.Asks g key b) :
    Session.newFunction u a = Session.newFunction w b := by
  obtain ⟨_, d, -, -, hd, hfun, -, hkey⟩ := ha.definition
  obtain ⟨_, e, -, -, he, hfun', -, hkey'⟩ := hb.definition
  have hmem := Session.mem_functionDecls hu hd hfun
  have hmem' := Session.mem_functionDecls hw he hfun'
  exact Session.newFunction_eq (h.listing.agree u hu w hw) hd he
    ((h.keys d hmem e hmem').1.1 (hkey.trans hkey'.symm))

end TranslationUnit

namespace Session

variable {s t t₁ t₂ : Session} {ρ : Renaming} {u w : TranslationUnit}
  {units done : List TranslationUnit} {options : Options} {f : FlowSummary} {key : FunctionKey}
  {set : VarSet}

/-! ## What remains of a visit -/

/-- The unit was entered from `s`, followed with this summary to `t`, and left. -/
structure Visit (options : Options) (u : TranslationUnit) (s : Session) (f : FlowSummary)
    (t t' : Session) : Prop where
  enter : (enter u).Ends s ⟨⟩ (entering u s)
  entered : Reachable options (entering u s)
  flow : (flow u).Ends (entering u s) f t
  exit : exit.Ends t ⟨⟩ t'

namespace Visit

variable {t' : Session} (h : Visit options u s f t t')

include h

theorem reachable : Reachable options t' :=
  (h.entered.ended (r := .flow u) (ends_discard.2 ⟨f, h.flow⟩)).ended (r := .exit) h.exit

theorem enters : s.Follows (entering u s) := ((enter_meets u s).of_ends h.enter).1

theorem exits : t.Follows t' := ((exit_meets t).of_ends h.exit).1

/-- What is remembered after the unit was followed was made for it, but for signatures that were
there before. -/
theorem faithful : (entering u s).Visits t ∧ s.KeepsDeclared t ∧
    t.Faithful u fun key => ∃ set, s.implicits.find? key = some set := by
  have hF := keepsFaithful_admitsFlowing u fun key => ∃ set, s.implicits.find? key = some set
  obtain ⟨hvisits, hdeclared, hfaithful⟩ := ((flow_stays hF _).of_ends h.flow).1 h.entered.wellFormed
  refine ⟨hvisits, hdeclared, hfaithful ?_⟩
  exact faithful_entered rfl rfl h.entered.pointeesLie h.entered.wellFormed

theorem follows : s.Follows t' := (h.enters.trans h.faithful.1.toFollows).trans h.exits

theorem keepsDeclared_exit : t.KeepsDeclared t' := .of_eq (by rw [eq_of_exit h.exit])

end Visit

/-- A run over units begins with a visit. -/
theorem ends_flowUnits {rest : List TranslationUnit} (hs : Reachable options s)
    (h : (flowUnits (u :: rest)).Ends s f t) :
    ∃ f₁ t₂ t₃ f₂, Visit options u s f₁ t₂ t₃ ∧ (flowUnits rest).Ends t₃ f₂ t ∧ f = f₁.add f₂ := by
  obtain ⟨_, t₁, henter, h⟩ := ends_bind.1 h
  obtain ⟨f₁, t₂, hflow, h⟩ := ends_bind.1 h
  obtain ⟨_, t₃, hexit, h⟩ := ends_bind.1 h
  obtain ⟨f₂, t₄, hrest, h⟩ := ends_bind.1 h
  obtain ⟨rfl, rfl⟩ := ends_pure.1 h
  obtain ⟨-, rfl⟩ := (enter_meets u s).of_ends henter
  exact ⟨f₁, t₂, t₃, f₂, ⟨henter, hs.ended (r := .enter u) henter, hflow, hexit⟩, hrest, rfl⟩

/-- In a run that led to `t` the unit was followed, with this summary. -/
def Passed (options : Options) (t : Session) (u : TranslationUnit) (f : FlowSummary) : Prop :=
  ∃ s t₂ t₃, Visit options u s f t₂ t₃ ∧ t₂.Follows t ∧ t₂.KeepsDeclared t

/-- Every unit of a run was followed on the way to what the run left. -/
theorem flowUnits_passed (hs : Reachable options s) (hends : (flowUnits done).Ends s f t) :
    Reachable options t ∧ s.Follows t ∧ s.KeepsDeclared t ∧
      ∃ fs, List.Forall₂ (Passed options t) done fs ∧ f = FlowSummary.sum fs := by
  induction done generalizing s f with
  | nil =>
    obtain ⟨rfl, rfl⟩ := ends_pure.1 hends
    exact ⟨hs, .refl s, .refl s, [], .nil, rfl⟩
  | cons u rest ih =>
    obtain ⟨f₁, t₂, t₃, f₂, hvisit, hrest, rfl⟩ := ends_flowUnits hs hends
    obtain ⟨-, hdeclared, -⟩ := hvisit.faithful
    obtain ⟨ht, hfollows, hkept, fs, hfs, rfl⟩ := ih hvisit.reachable hrest
    have hkept := hvisit.keepsDeclared_exit.trans hkept
    exact ⟨ht, hvisit.follows.trans hfollows, hdeclared.trans hkept, f₁ :: fs,
      .cons ⟨s, t₂, t₃, hvisit, hvisit.exits.trans hfollows, hkept⟩ hfs, rfl⟩

/-- Every signature on demand was made for one of the units. -/
def Signed (units : List TranslationUnit) (s : Session) : Prop :=
  ∀ key set, s.implicits.find? key = some set → ∃ u ∈ units, MadeFor u s key set

/-- Whatever a visit signs on demand is for its own unit. -/
theorem Visit.signed {t' : Session} (hvisit : Visit options u s f t t') (hu : u ∈ units)
    (h : s.Signed units) : t'.Signed units := by
  obtain ⟨hvisits, hdeclared, hfaithful⟩ := hvisit.faithful
  have hvisits := hvisit.enters.trans hvisits.toFollows
  intro key set hset
  rw [eq_of_exit hvisit.exit] at hset
  have hmade : ∃ w ∈ units, MadeFor w t key set := by
    rcases hfaithful.implicits _ (OrderedMap.mem_of_find? hset) with ⟨old, hold⟩ | hmade
    · obtain rfl := Option.some.inj ((hvisits.implicits key old hold).symm.trans hset)
      obtain ⟨w, hw, hmade⟩ := h key old hold
      exact ⟨w, hw, hmade.extends hvisits.toExtends hdeclared⟩
    · exact ⟨u, hu, hmade⟩
  exact hmade.imp fun w hw =>
    ⟨hw.1, hw.2.extends hvisit.exits.toExtends hvisit.keepsDeclared_exit⟩

/-- Whatever is signed on demand while units are followed is for one of them. -/
theorem flowUnits_signed (hdone : ∀ u ∈ done, u ∈ units) (hs : Reachable options s)
    (h : s.Signed units) (hends : (flowUnits done).Ends s f t) : t.Signed units := by
  induction done generalizing s f with
  | nil =>
    obtain ⟨-, rfl⟩ := ends_pure.1 hends
    exact h
  | cons u rest ih =>
    obtain ⟨f₁, t₂, t₃, f₂, hvisit, hrest, -⟩ := ends_flowUnits hs hends
    obtain ⟨hu, hdone⟩ := List.forall_mem_cons.1 hdone
    exact ih hdone hvisit.reachable (hvisit.signed hu h) hrest

/-! ## Units followed again -/

/-- What is made on demand for one unit is made for every other one that asks for it. -/
theorem MadeFor.of_asks {func maker : DeclId} (hunits : Concordant units) (hu : u ∈ units)
    (hw : w ∈ units) (h : MadeFor w s key set) (hasks : u.Asks func key maker) :
    MadeFor u s key set := by
  obtain ⟨func', maker', v, r, r', hset, hasked, hends, hext, hdeclared⟩ := h
  exact ⟨func, maker, v, r, r', hset, hasks, hasks.newFunction_eq hunits hu hw hasked ▸ hends, hext,
    hdeclared⟩

/-- A unit may be opened again with what was made for it. -/
theorem Follows.reopens {r : Session} (hw : t.Follows r) {o : OpenUnit} (ho : t.opened = some o) :
    t.Visits { r with opened := some o } where
  options := hw.options
  solver := hw.solver
  arena := hw.arena
  registered := hw.registered
  wellFormed ht := by
    refine { hw.wellFormed ht with literals := ?_, unknownCallees := ?_ }
    · rintro _ ⟨⟩ e he
      exact hw.arena.isPointer (ht.literals o ho e he)
    · rintro _ ⟨⟩ e he
      exact hw.arena.isFunction (ht.unknownCallees o ho e he)
  index := hw.index
  globals := hw.globals
  implicits := hw.implicits
  pointees := hw.pointees
  opened o' ho' := ⟨o', (ho.symm.trans ho').symm ▸ rfl, .refl o'⟩

/-- No computed callee of the units denotes two signatures, whichever of them is open. -/
def CallOne (units : List TranslationUnit) (t : Session) : Prop :=
  ∀ u ∈ units, ∀ o, WellFormed { t with opened := some o } → CallsOne u { t with opened := some o }

/-- Constraints alone do not change what is called. -/
theorem CallOne.of_records (h : CallOne units t) (hst : s.Records t) : CallOne units s := by
  intro u hu o hs call callee args view set hx hnone hdenote f hf g hg
  have hopened : Records { s with opened := some o } { t with opened := some o } :=
    ⟨hst.solver, hst.size, by rw [hst.only]⟩
  have hagain := (((denote_recalls u callee view hs).of_ends hdenote).2.2 _
    hopened.creates.visits : (denote u callee view).Ends _ set _)
  have hcalls := h u hu o (hopened.creates.wellFormed hs) call callee args view set hx hnone hagain
  rw [show Session.arena { t with opened := some o } = s.arena from hst.arena] at hcalls
  exact hcalls f hf g hg

/-- So it is where every call names its callee. -/
theorem callOne_of_named (h : ∀ u ∈ units, ∀ call callee args,
    u.expr call = .ok (.call callee args) → u.namedCallee call ≠ .ok none) (t : Session) :
    CallOne units t := fun u hu _ _ call callee args _ _ hx hnone =>
  absurd hnone (h u hu call callee args hx)

section

variable (hunits : Concordant units) (hu : u ∈ units) (ht : Reachable options t)
  (hsigned : t.Signed units) (hcalls : CallOne units t)

include hunits hu ht hsigned hcalls

/-- Every signature that the unit asks for was made for it. -/
theorem Visit.visited {r t₂ t₃ : Session} (hvisit : Visit options u r f t₂ t₃)
    (hfollows : t₂.Follows t) {o : OpenUnit} (ho : t₂.opened = some o) :
    Visited u (fun key => ∀ func maker, ¬ u.Asks func key maker) { t with opened := some o } := by
  obtain ⟨hvisits, -, hfaithful⟩ := hvisit.faithful
  obtain ⟨o', ho', hremembers⟩ := hvisits.opened _ rfl
  obtain rfl := Option.some.inj (ho'.symm.trans ho)
  have hreopens := hfollows.reopens ho
  have hwf := hreopens.wellFormed (hvisits.wellFormed hvisit.entered.wellFormed)
  constructor
  case toFaithful =>
    constructor
    case wellFormed => exact hwf
    case pointees => exact ht.pointeesLie
    case literals =>
      rintro _ ⟨⟩ e he
      exact (hfaithful.literals _ ho e he).extends hreopens.toExtends
    case unknownCallees =>
      rintro _ ⟨⟩ e he
      exact hfollows.arena.function? (hfaithful.unknownCallees _ ho e he)
    case implicits =>
      intro e he
      by_cases hasked : ∃ func maker, u.Asks func e.1 maker
      · obtain ⟨func, maker, hasks⟩ := hasked
        obtain ⟨w, hw, hmade⟩ := hsigned e.1 e.2 (ht.implicits_sorted.find?_eq_some.2 he)
        have hclosed : t.Extends { t with opened := some o' } :=
          .of_tables rfl rfl rfl rfl fun _ => hwf
        exact .inr ((hmade.of_asks hunits hu hw hasks).extends hclosed (.of_eq rfl))
      · exact .inl fun func maker hasks => hasked ⟨func, maker, hasks⟩
  case isOpen => exact ⟨o', rfl, hremembers.id, hremembers.file⟩
  case keys => exact hunits.keysTellNames hu
  case callsOne => exact hcalls u hu o' hwf

/-- A unit that was followed on the way to `t` can be followed in all that stands in `t`. -/
theorem Passed.again (hpassed : Passed options t u f) (hclosed : t.opened = none)
    (h : s.Embeds ρ t) (hs : s.opened = none) :
    ∃ s₂ s₃ ρ', (enter u).Ends s ⟨⟩ (entering u s) ∧ (flow u).Ends (entering u s) f s₂ ∧
      exit.Ends s₂ ⟨⟩ s₃ ∧ s₃.Embeds ρ' t := by
  obtain ⟨r, t₂, t₃, hvisit, hfollows, hkept⟩ := hpassed
  obtain ⟨hvisits, -, -⟩ := hvisit.faithful
  obtain ⟨o, ho, hremembers⟩ := hvisits.opened _ rfl
  have hvisited := hvisit.visited hunits hu ht hsigned hcalls hfollows ho
  have henter := enter_ends hs u
  have hss₁ : s.Follows (entering u s) := ((enter_meets u s).of_ends henter).1
  have hentered : (entering u s).Embeds ρ { t with opened := some o } := h.withOpened
    (fun o' ho' => ⟨_, rfl, Option.some.inj ho' ▸ embeds_entering u hremembers.id hremembers.file⟩)
    (hss₁.wellFormed h.wellFormed)
  have hrel : (keepsFaithful u fun key => ∀ func maker, ¬ u.Asks func key maker).rel t₂
      { t with opened := some o } :=
    fun _ => ⟨hfollows.reopens ho, hkept, fun _ => hvisited.toFaithful⟩
  obtain ⟨f', ρ', s₂, hflow, he, -, rfl⟩ := flow_reordered hvisited (.refl u) hentered
    (fun key func maker hkey hasks => absurd hasks (hkey func maker)) hvisit.entered.wellFormed
    hvisit.flow hrel
  obtain ⟨o', ho', -⟩ := he.opened o rfl
  have hexit := exit_ends ho'
  have hs₃ := (((exit_meets s₂).of_ends hexit).1 : s₂.Follows _).wellFormed he.wellFormed
  have hout : Embeds ρ' { s₂ with opened := none } { t with opened := none } :=
    he.withOpened (by rintro _ ⟨⟩) hs₃
  have hsame : { t with opened := none } = t := by rw [← hclosed]
  exact ⟨s₂, _, ρ', henter, hflow, hexit, hsame ▸ hout⟩

end

/-- Units that were followed on the way to `t` can be followed in any order, one after another. -/
theorem flowUnits_again (hunits : Concordant units) (hdone : ∀ u ∈ done, u ∈ units)
    (ht : Reachable options t) (hclosed : t.opened = none) (hsigned : t.Signed units)
    (hcalls : CallOne units t) {fs : List FlowSummary} (hfs : List.Forall₂ (Passed options t) done fs)
    (h : s.Embeds ρ t) (hs : s.opened = none) :
    ∃ s' ρ', (flowUnits done).Ends s (FlowSummary.sum fs) s' ∧ s'.Embeds ρ' t := by
  induction hfs generalizing s ρ with
  | nil => exact ⟨s, ρ, ends_pure.2 ⟨rfl, rfl⟩, h⟩
  | @cons u f rest fs hpassed _ ih =>
    obtain ⟨hu, hdone⟩ := List.forall_mem_cons.1 hdone
    obtain ⟨s₂, s₃, ρ₁, henter, hflow, hexit, h₃⟩ :=
      hpassed.again hunits hu ht hsigned hcalls hclosed h hs
    obtain ⟨s', ρ', hrest, h'⟩ := ih hdone h₃ (opened_of_exit hexit)
    refine ⟨s', ρ', ends_bind.2 ⟨⟨⟩, _, henter, ends_bind.2 ⟨f, s₂, hflow, ?_⟩⟩, h'⟩
    exact ends_bind.2 ⟨⟨⟩, s₃, hexit, ends_bind.2 ⟨_, s', hrest, ends_pure.2 ⟨rfl, rfl⟩⟩⟩

/-- Whatever is followed in one order is followed in every other one, with the same summary, and what
the other order leaves stands in what the one leaves. -/
theorem exists_flowUnits {units' : List TranslationUnit} {b b' : Session} (hunits : Concordant units)
    (hperm : units.Perm units') (hb : (indexUnits units).Ends (.new options) ⟨⟩ b)
    (hb' : (indexUnits units').Ends (.new options) ⟨⟩ b')
    (hflow : (flowUnits units').Ends b' f t) (hcalls : CallOne units' t) :
    ∃ s ρ, (flowUnits units).Ends b f s ∧ s.Embeds ρ t := by
  have hreach := (hasIndexed_of_ends hb').reachable
  have hopened := opened_of_indexUnits hb' rfl
  have hclosed := opened_of_flowUnits hflow hopened
  have hunvisited := indexUnits_unvisited (unvisited_new options) hb'
  have hsigned : t.Signed units' := by
    refine flowUnits_signed (fun _ h => h) hreach (fun key set hset => ?_) hflow
    rw [hunvisited.implicits] at hset
    cases hset
  obtain ⟨ht, hfollows, hkept, fs, hfs, rfl⟩ := flowUnits_passed hreach hflow
  obtain ⟨fs', hfs', hsum⟩ := List.perm_comp_forall₂ hperm hfs
  obtain ⟨ρ, hembeds⟩ := exists_embeds hunits hperm hb hb'
  have hstands := hembeds.follows hreach.wellFormed hfollows hkept fun o' ho' => by
    rw [hclosed] at ho'
    cases ho'
  rw [← FlowSummary.sum_perm hsum]
  exact flowUnits_again (hunits.perm hperm) (fun _ hu => hperm.mem_iff.1 hu) ht hclosed hsigned hcalls
    hfs' hstands (opened_of_indexUnits hb rfl)

end Session

end CheckedPointers
