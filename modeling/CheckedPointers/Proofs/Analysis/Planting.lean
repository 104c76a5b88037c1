import CheckedPointers.Proofs.Analysis.Seating
import CheckedPointers.Proofs.Session.Looking
import CheckedPointers.Proofs.Session.Redeclaring

/-!
What stands at the anchors of an indexed program. Where units agree on what is declared there, the
variable of a declarator stands alone at its anchor, made as each of the units would make it, and
forced if a macro produced the declarator. It does not matter in which order the units come.
-/
namespace CheckedPointers

open Op TranslationUnit

namespace TranslationUnit

def ParamAt (units : List TranslationUnit) (a : Anchor) : Prop :=
  ∃ site, Sites units site ∧ some a ∈ site.params

theorem Listing.not_paramAt {units : List TranslationUnit} {u : TranslationUnit} {id : DeclId}
    {d : Decl} (h : Listing units) (hu : u ∈ units) (hd : u.decl id = .ok d)
    (hparam : ¬ d.isParam) : ¬ ParamAt units d.anchor := by
  rintro ⟨site, ⟨w, hw, f, e, he, -, rfl⟩, ha⟩
  exact hparam (h.isParam_of_anchor hw hu he ha hd rfl)

end TranslationUnit

namespace Session

variable {s t w : Session} {u : TranslationUnit} {units done : List TranslationUnit}
  {options : Options} {id : DeclId} {d e : Decl} {a : Anchor} {v : VarId}

/-- The slots of a function are put where its parameters are declared. -/
theorem PutsSlots.paramAt {f : FunctionVariable} {x : VarId} (h : PutsSlots u d f a x)
    (hu : u ∈ units) (hd : u.decl id = .ok d) (hfun : d.isFunction) : ParamAt units a := by
  obtain ⟨e, he, p, hp, rfl, -⟩ := h
  exact ⟨u.siteOf d, ⟨u, hu, id, d, hd, hfun, rfl⟩,
    mem_paramAnchors.2 ⟨e.1, (List.of_mem_zip he).1, p, hp, rfl⟩⟩

/-- What stands where no parameter is declared stands there alone, and was made for what is
declared there. A function stands at one anchor only, and no anchor is on record at which nothing
stands. -/
structure Planted (units : List TranslationUnit) (s : Session) : Prop where
  own : ∀ a, ¬ ParamAt units a → ∀ v ∈ s.storedAt a, ∃ u ∈ units, ∃ id d,
    u.decl id = .ok d ∧ d.anchor = a ∧ Stems u id d s v ∧ d.Suits s.arena v
  alone : ∀ a, ¬ ParamAt units a → ∀ v ∈ s.storedAt a, ∀ w ∈ s.storedAt a, w = v
  once : ∀ a b, ∀ v ∈ s.storedAt a, v ∈ s.storedAt b → s.arena.isFunction v → a = b
  filled : ∀ a, s.index.contains a → ∃ v, v ∈ s.storedAt a

theorem planted_new (options : Options) : Planted units (new options) where
  own _ _ v hv := absurd hv (VarSet.not_mem_empty v)
  alone _ _ v hv := absurd hv (VarSet.not_mem_empty v)
  once _ _ v hv := absurd hv (VarSet.not_mem_empty v)
  filled _ ha := nomatch ha

/-- Whatever puts nothing at an anchor leaves what stands there. -/
theorem Planted.same_index (h : Planted units s) (hext : s.bare.Extends t.bare)
    (hindex : t.index = s.index) (hlt : ∀ a, ∀ v ∈ s.storedAt a, v < s.arena.size) :
    Planted units t := by
  have hstored (a : Anchor) : t.storedAt a = s.storedAt a := by rw [storedAt, hindex, storedAt]
  have hgrows : s.arena.Grows t.arena := hext.arena
  constructor
  case own =>
    intro a ha v hv
    rw [hstored] at hv
    obtain ⟨u, hu, id, d, hd, hda, hstems, hsuits⟩ := h.own a ha v hv
    exact ⟨u, hu, id, d, hd, hda, hstems.bare hext, hsuits.grows hgrows⟩
  case alone =>
    intro a ha
    rw [hstored]
    exact h.alone a ha
  case once =>
    intro a b v hv hv' hfun
    rw [hstored] at hv hv'
    rw [hgrows.isFunction_eq (hlt a v hv)] at hfun
    exact h.once a b v hv hv' hfun
  case filled =>
    intro a ha
    rw [hstored]
    exact h.filled a (hindex ▸ ha)

/-- A declarator was given a variable. Whatever else is new at an anchor is new where parameters are
declared. -/
structure Plants (units : List TranslationUnit) (u : TranslationUnit) (id : DeclId) (d : Decl)
    (s t : Session) (v : VarId) : Prop where
  stock : s.bare.Extends t.bare
  stands : v ∈ t.storedAt d.anchor
  stems : Stems u id d t v
  suits : d.Suits t.arena v
  fresh : t.arena.isFunction v → s.arena.size ≤ v
  kept : ∀ a, ∀ x ∈ s.storedAt a, x ∈ t.storedAt a
  added : ∀ a, ∀ x ∈ t.storedAt a,
    x ∈ s.storedAt a ∨ (a = d.anchor ∧ x = v) ∨ ParamAt units a ∧ t.arena.isPointer x
  contains : ∀ a, t.index.contains a → s.index.contains a ∨ ∃ x, x ∈ t.storedAt a

theorem isFunction_of_newVariable {made : Session} (hends : (newVariable u id d).Ends s v made)
    (hfun : made.arena.isFunction v) : d.isFunction := by
  by_contra hno
  rw [newVariable, if_neg hno] at hends
  have hptr : made.arena.isPointer v := ((newPointer_meets _ _ _ s).of_ends hends).2
  exact Arena.not_isFunction hptr hfun

/-- A new variable of a declarator plants it. -/
theorem GivesNew.plants (h : GivesNew u id d s t) (hu : u ∈ units) (hd : u.decl id = .ok d)
    (hs : s.WellFormed) : ∃ v, Plants units u id d s t v := by
  obtain ⟨v, made, hends, hmade, hsuits, hputs⟩ := h.puts
  have hindex : made.index = s.index := by rw [hmade.only]
  have hold (a : Anchor) : made.storedAt a = s.storedAt a := by rw [storedAt, hindex, storedAt]
  have hbare : t.bare = made.bare := SameStore.bare ⟨hputs.solver, hputs.arena⟩
  refine ⟨v, ?_⟩
  constructor
  case stock => exact hbare ▸ hmade.toExtends.bare (hmade.wellFormed hs)
  case stands => exact (hputs.mem_storedAt _ v).2 (.inr (.inl ⟨rfl, rfl⟩))
  case stems => exact ⟨s, made, hends, hbare ▸ .refl _⟩
  case suits => exact hputs.arena ▸ hsuits
  case fresh =>
    intro hfun
    rw [hputs.arena] at hfun
    rw [newVariable, if_pos (isFunction_of_newVariable hends hfun)] at hends
    exact ((newFunction_later u id s).of_ends hends).2.1
  case kept =>
    intro a x hx
    exact (hputs.mem_storedAt a x).2 (.inl (hold a ▸ hx))
  case added =>
    intro a x hx
    rcases (hputs.mem_storedAt a x).1 hx with hx | hx | ⟨f, hf, hx⟩
    · exact .inl (hold a ▸ hx)
    · exact .inr (.inl hx)
    · have hfun := isFunction_of_newVariable hends (Arena.isFunction_iff.2 ⟨f, hf⟩)
      refine .inr (.inr ⟨hx.paramAt hu hd hfun, hputs.arena ▸ ?_⟩)
      obtain ⟨e, he, -, -, -, hx⟩ := hx
      have hslot := List.mem_cons_of_mem f.returns (List.of_mem_zip he).2
      exact ((hmade.wellFormed hs).arena.slots hf hslot).isPointer hx
  case contains =>
    intro a ha
    rcases hputs.contains a ha with ha | ⟨x, hx⟩
    · exact .inl (hindex ▸ ha)
    · exact .inr ⟨x, (hputs.mem_storedAt a x).2 (.inr hx)⟩

/-- Declarations at one anchor ask for the same. -/
theorem suits_of_anchor (hlisting : Listing units) (hu : u ∈ units) (hd : u.decl id = .ok d)
    {w : TranslationUnit} {f : DeclId} (hw : w ∈ units) (he : w.decl f = .ok e)
    (ha : e.anchor = d.anchor) (hsuits : e.Suits s.arena v) : d.Suits s.arena v := by
  have houtline := (hlisting.agree w hw u hu e (mem_decls he) d (mem_decls hd) ha).1
  rw [Decl.Suits, Decl.eq_of_outline Decl.outline_ty? houtline] at hsuits
  exact hsuits

/-- What is planted stays so when a further declarator is given its variable. -/
theorem Planted.gives (hlisting : Listing units) (hu : u ∈ units) (hd : u.decl id = .ok d)
    (hparam : ¬ d.isParam) (hs : s.WellFormed) (h : Planted units s) (hst : GivesNew u id d s t) :
    Planted units t := by
  obtain ⟨v, hplants⟩ := hst.plants hu hd hs
  have hgrows : s.arena.Grows t.arena := hplants.stock.arena
  have hnone (x : VarId) : x ∉ s.storedAt d.anchor := by
    intro hx
    obtain ⟨w, hw, f, e, he, ha, -, hsuits⟩ :=
      h.own d.anchor (hlisting.not_paramAt hu hd hparam) x hx
    exact hst.vacant x hx (suits_of_anchor hlisting hu hd hw he ha hsuits)
  constructor
  case own =>
    intro a ha x hx
    rcases hplants.added a x hx with hx | ⟨rfl, rfl⟩ | ⟨hno, -⟩
    · obtain ⟨w, hw, f, e, he, hea, hstems, hsuits⟩ := h.own a ha x hx
      exact ⟨w, hw, f, e, he, hea, hstems.bare hplants.stock, hsuits.grows hgrows⟩
    · exact ⟨u, hu, id, d, hd, rfl, hplants.stems, hplants.suits⟩
    · exact absurd hno ha
  case alone =>
    intro a ha x hx y hy
    rcases hplants.added a x hx with hx | ⟨rfl, rfl⟩ | ⟨hno, -⟩
    · rcases hplants.added a y hy with hy | ⟨rfl, rfl⟩ | ⟨hno, -⟩
      · exact h.alone a ha x hx y hy
      · exact absurd hx (hnone x)
      · exact absurd hno ha
    · rcases hplants.added _ y hy with hy | ⟨-, rfl⟩ | ⟨hno, -⟩
      · exact absurd hy (hnone y)
      · rfl
      · exact absurd hno ha
    · exact absurd hno ha
  case once =>
    intro a b x hx hx' hfun
    have hpointer : ¬ t.arena.isPointer x := fun hptr => Arena.not_isFunction hptr hfun
    rcases hplants.added a x hx with hx | ⟨rfl, rfl⟩ | ⟨-, hptr⟩
    · have hlt := hs.stored_lt hx
      rcases hplants.added b x hx' with hx' | ⟨rfl, rfl⟩ | ⟨-, hptr⟩
      · rw [hgrows.isFunction_eq hlt] at hfun
        exact h.once a b x hx hx' hfun
      · exact absurd hlt (Nat.not_lt.2 (hplants.fresh hfun))
      · exact absurd hptr hpointer
    · rcases hplants.added b x hx' with hx' | ⟨rfl, -⟩ | ⟨-, hptr⟩
      · exact absurd (hs.stored_lt hx') (Nat.not_lt.2 (hplants.fresh hfun))
      · rfl
      · exact absurd hptr hpointer
    · exact absurd hptr hpointer
  case filled =>
    intro a ha
    rcases hplants.contains a ha with ha | hx
    · obtain ⟨x, hx⟩ := h.filled a ha
      exact ⟨x, hplants.kept a x hx⟩
    · exact hx

/-! ## Indexing -/

theorem Forces.records (h : Forces d s t) : s.Records t := by
  unfold Forces at h
  split at h
  · obtain ⟨b, h⟩ := ends_discard.1 h
    exact ((boundSet_meets _ _ s).of_ends h).1
  · exact h ▸ .refl s

/-- All that stands where a declarator does that a macro produced is forced. -/
def MacrosForced (units : List TranslationUnit) (s : Session) : Prop :=
  ∀ u ∈ units, ∀ id d, u.decl id = .ok d → d.isDeclarator → ¬ d.isParam → d.inMacro →
    ∀ v ∈ s.storedAt d.anchor, s.BoundRecorded .leastSafe v

theorem MacrosForced.idles (h : MacrosForced units s) (hst : s.Idles t) : MacrosForced units t := by
  intro u hu id d hd hdecl hparam hmacro v hv
  rw [storedAt, hst.index] at hv
  exact (h u hu id d hd hdecl hparam hmacro v hv).extends hst.indexes.toExtends

structure Grown (units : List TranslationUnit) (s : Session) : Prop where
  wellFormed : s.WellFormed
  planted : Planted units s
  forced : MacrosForced units s

theorem grown_new (options : Options) : Grown units (new options) :=
  ⟨wellFormed_new options, planted_new options,
    fun _ _ _ _ _ _ _ _ v hv => absurd hv (VarSet.not_mem_empty v)⟩

theorem Grown.idles (h : Grown units s) (hst : s.Idles t) : Grown units t := by
  have hext : s.Extends t := hst.indexes.toExtends
  have ht := hext.wellFormed h.wellFormed
  exact ⟨ht, h.planted.same_index (hext.bare ht) hst.index fun _ _ => h.wellFormed.stored_lt,
    h.forced.idles hst⟩

/-- One more declarator with its variable, forced if a macro produced it, and what holds of indexing
sessions still holds. -/
theorem Grown.gives (hlisting : Listing units) (hu : u ∈ units) (hd : u.decl id = .ok d)
    (hparam : ¬ d.isParam) (h : Grown units s) (hsw : w = s ∨ GivesNew u id d s w)
    (hforces : Forces d w t) (hst : s.Indexes t) : Grown units t := by
  have hs := h.wellFormed
  have ht := hst.wellFormed hs
  have hwt := hforces.records
  have hindex : t.index = w.index := by rw [hwt.only]
  have hstored (a : Anchor) : t.storedAt a = w.storedAt a := by rw [storedAt, hindex, storedAt]
  have hplanted : Planted units w := by
    rcases hsw with rfl | hsw
    · exact h.planted
    · exact h.planted.gives hlisting hu hd hparam hs hsw
  have hold : ∀ a, ¬ ParamAt units a → a ≠ d.anchor → ∀ x ∈ w.storedAt a, x ∈ s.storedAt a := by
    intro a ha hne x hx
    rcases hsw with rfl | hsw
    · exact hx
    · obtain ⟨v, hplants⟩ := hsw.plants hu hd hs
      rcases hplants.added a x hx with hx | ⟨hda, -⟩ | ⟨hno, -⟩
      · exact hx
      · exact absurd hda hne
      · exact absurd hno ha
  refine ⟨ht, hplanted.same_index (hwt.creates.toExtends.bare ht) hindex fun a x hx => ?_, ?_⟩
  · rw [← hwt.arena]
    exact ht.stored_lt (hstored a ▸ hx)
  · intro w' hw' f e he hedecl heparam hmacro x hx
    rw [hstored] at hx
    by_cases hde : e.anchor = d.anchor
    · -- what a macro produced for one unit it produced for all
      have houtline := (hlisting.agree w' hw' u hu e (mem_decls he) d (mem_decls hd) hde).1
      have hforced : d.isDeclarator ∧ d.inMacro := by
        rw [← Decl.eq_of_outline Decl.outline_isDeclarator houtline,
          ← Decl.eq_of_outline (g := Decl.inMacro) (fun _ => rfl) houtline]
        exact ⟨hedecl, hmacro⟩
      rw [Forces, if_pos hforced] at hforces
      obtain ⟨b, hends⟩ := ends_discard.1 hforces
      exact ((boundSet_stated _ _ w).of_ends hends).2 x (hde ▸ hx)
    · have hx := hold e.anchor (hlisting.not_paramAt hw' he heparam) hde x hx
      exact (h.forced w' hw' f e he hedecl heparam hmacro x hx).extends hst.toExtends

theorem giveVariables_grown (hlisting : Listing units) (hu : u ∈ units)
    (hparam : ∀ d, u.decl id = .ok d → ¬ d.isParam) (h : Grown units s) :
    Meets .any (giveVariables u id) s fun _ t => Grown units t := by
  cases hd : u.decl id with
  | error f =>
    refine Meets.bind_requireOpen fun _ _ => ?_
    rw [hd]
    exact Meets.fault
  | ok d =>
    refine ((giveVariables_gives hd s).both (giveVariables_meets u id h.wellFormed)).mono
      fun _ t _ ⟨⟨w, hsw, hforces⟩, hst, _⟩ => ?_
    exact h.gives hlisting hu hd (hparam d hd) hsw hforces hst

theorem indexUnit_grown (hlisting : Listing units) (hu : u ∈ units) (h : Grown units s) :
    Meets .any (indexUnit u) s fun _ t => Grown units t :=
  indexUnit_keeps_idle (fun ids hids id hid _ hs =>
    giveVariables_grown hlisting hu (hlisting.unlisted u hu ids hids id hid) hs)
    (fun _ _ hs hst => hs.idles hst) h

/-- What holds while units are indexed holds of every session that has indexed some of them. -/
theorem HasIndexed.grown (h : HasIndexed options done s) (hlisting : Listing units)
    (hdone : ∀ u ∈ done, u ∈ units) : Grown units s := by
  induction h with
  | new => exact grown_new options
  | unit _ hends ih =>
    obtain ⟨hdone, hu⟩ := List.forall_mem_append.1 hdone
    exact ((indexUnit_grown hlisting (hu _ List.mem_cons_self) (ih hdone)).of_ends hends).2
  | request r hr h hends ih => exact (ih hdone).idles (Request.idles hr h.reachable.wellFormed hends)

end Session

end CheckedPointers
