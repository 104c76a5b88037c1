import CheckedPointers.Proofs.Analysis.OwnDeclarations
import CheckedPointers.Proofs.Analysis.Planting
import CheckedPointers.Proofs.Analysis.Reordering
import CheckedPointers.Proofs.Session.Registry

/-!
Units indexed in one order and in another. Whatever one order makes and puts at an anchor has its
counterpart in what the other order leaves; and so what the one leaves stands in what the other
leaves.
-/
namespace CheckedPointers

open Op TranslationUnit

namespace Session

variable {ρ : Renaming} {b b' s s' t w : Session} {u : TranslationUnit}
  {units units' done : List TranslationUnit}
  {options : Options} {id : DeclId} {d : Decl} {a : Anchor} {v : VarId}

/-- What was made and recorded stands in `t`, and what stands at an anchor stands there too. -/
structure Ahead (ρ : Renaming) (s t : Session) : Prop where
  embeds : s.bare.Embeds ρ t.bare
  stored : ∀ a, ∀ v ∈ s.storedAt a, ρ.var v ∈ t.storedAt a

theorem ahead_new (options : Options) (t : Session) : Ahead .id (new options) t where
  embeds :=
    { wellFormed := (wellFormed_new options).bare
      options := rfl
      arena := fun v x hx => by simp [bare, new] at hx
      recorded := fun c hc => by simp [bare, new, ConstraintSystem.empty] at hc
      index := fun _ => rfl
      stored := fun _ => .empty _ _ _
      implicits := fun _ _ h => nomatch h
      declared := fun _ _ h => nomatch h
      pointees := fun _ _ h => nomatch h
      opened := fun _ h => nomatch h }
  stored _ v hv := absurd hv (VarSet.not_mem_empty v)

theorem Ahead.same (h : Ahead ρ s t) (hsolver : w.solver = s.solver) (harena : w.arena = s.arena)
    (hindex : w.index = s.index) : Ahead ρ w t where
  embeds := by
    rw [SameStore.bare ⟨hsolver, harena⟩]
    exact h.embeds
  stored a v hv := by
    rw [storedAt, hindex] at hv
    exact h.stored a v hv

section

variable (hlisting : Listing units) (ht : HasIndexed options units t) (hu : u ∈ units)

include hlisting ht hu

/-- The variable that a declarator is given has its counterpart, and so have the slots. -/
theorem Ahead.gives {ids : List DeclId} (hids : u.declarators = .ok ids) (hid : id ∈ ids)
    (hd : u.decl id = .ok d) (hs : s.WellFormed) (h : Ahead ρ s t) (hst : GivesNew u id d s w) :
    ∃ ρ', Ahead ρ' w t := by
  have hparam := hlisting.unlisted u hu ids hids id hid d hd
  obtain ⟨v, made, hends, hmade, hsuits, hputs⟩ := hst.puts
  obtain ⟨x, hx, -⟩ := ht.suits hu hids hid hd hst.isDeclarator hsuits.asksVariable
  have hgrown := ht.grown hlisting fun _ h => h
  obtain ⟨w', hw', f, e, he, hea, hstems, -⟩ :=
    hgrown.planted.own d.anchor (hlisting.not_paramAt hu hd hparam) x hx
  have hstems : Stems u id d t x := by
    rw [Stems, newVariable_eq (hlisting.agree u hu w' hw') hd he hea.symm]
    exact hstems
  obtain ⟨ρ', hembeds, hl, rfl⟩ := hstems.embeds h.embeds hends
  have hbare : w.bare = made.bare := SameStore.bare ⟨hputs.solver, hputs.arena⟩
  refine ⟨ρ', hbare ▸ hembeds, fun a y hy => ?_⟩
  rcases (hputs.mem_storedAt a y).1 hy with hy | ⟨rfl, rfl⟩ | ⟨f, hf, e', he', p, hp, rfl, hslot⟩
  · have hold : y ∈ s.storedAt a := by
      rwa [storedAt, hmade.only] at hy
    rw [hl.agrees.var y (hs.stored_lt hold)]
    exact h.stored a y hold
  · exact hx
  · -- the function that stands there has its slots where the parameters are declared
    have hfun := isFunction_of_newVariable hends (Arena.isFunction_iff.2 ⟨f, hf⟩)
    obtain ⟨v', g, hseated⟩ := ht.seated hlisting hu hd hfun
    obtain rfl := hseated.alone (hlisting.owns_anchor hu hd hfun) _ hx
    obtain rfl := Option.some.inj ((hembeds.arena.function? hf).symm.trans hseated.function)
    obtain ⟨i, hi⟩ := List.mem_iff_getElem?.1 he'
    obtain ⟨hlisted, htaken⟩ := List.getElem?_zip_eq_some.1 hi
    obtain ⟨q, hq, hplace, -⟩ := hseated.slots i p.anchor
      (getElem?_paramAnchors.2 ⟨e'.1, hlisted, p, hp, rfl⟩)
    have hrenamed : e'.2.rename ρ' = .singleton q := by
      simpa [FunctionVariable.rename, htaken] using hq
    have hmem : ρ'.var y ∈ e'.2.rename ρ' := VarSet.mem_rename.2 ⟨y, hslot, rfl⟩
    rw [hrenamed, VarSet.mem_singleton] at hmem
    exact hmem ▸ hplace

/-- What is forced here is forced there. -/
theorem Ahead.forces {ids : List DeclId} (hids : u.declarators = .ok ids) (hid : id ∈ ids)
    (hd : u.decl id = .ok d) (hs' : s'.WellFormed) (h : Ahead ρ s t) (hforces : Forces d s s') :
    Ahead ρ s' t := by
  have hrecords := hforces.records
  unfold Forces at hforces
  split at hforces
  · next hmacro =>
    have hparam := hlisting.unlisted u hu ids hids id hid d hd
    have hforced := (ht.grown hlisting fun _ h => h).forced u hu id d hd hmacro.1 hparam hmacro.2
    obtain ⟨b, hends⟩ := ends_discard.1 hforces
    have hbare : (boundSet (s.storedAt d.anchor) .leastSafe).Ends s.bare b s'.bare :=
      ends_bare (boundSet_sameStore _ _)
        (fun r => (boundSet_meets _ .leastSafe r).to_creates) hends
    have hlt : ∀ a, ∀ v ∈ s.storedAt a, v < s.arena.size := fun a v hv => by
      have hv' : v ∈ s'.storedAt a := by
        rw [storedAt, hrecords.only]
        exact hv
      exact hrecords.arena ▸ hs'.stored_lt hv'
    obtain ⟨b', ρ', r, hends', he, -, rfl, -⟩ := boundSet_notes h.embeds (hlt d.anchor)
      fun v hv => hforced (ρ.var v) (h.stored d.anchor v hv)
    obtain ⟨-, rfl⟩ := hends'.unique hbare
    refine ⟨he, fun a v hv => ?_⟩
    rw [storedAt, hrecords.only] at hv
    exact h.stored a v hv
  · exact hforces ▸ h

/-- A session stays behind one that has indexed the whole unit when it gives a declarator its
variables. -/
theorem giveVariables_ahead {ids : List DeclId} (hids : u.declarators = .ok ids) (hid : id ∈ ids)
    (h : s.WellFormed ∧ ∃ ρ, Ahead ρ s t) :
    Meets .any (giveVariables u id) s fun _ w => w.WellFormed ∧ ∃ ρ, Ahead ρ w t := by
  obtain ⟨hs, ρ, h⟩ := h
  cases hd : u.decl id with
  | error f =>
    refine Meets.bind_requireOpen fun _ _ => ?_
    rw [hd]
    exact Meets.fault
  | ok d =>
    refine ((giveVariables_gives hd s).both (giveVariables_meets u id hs)).mono
      fun _ w _ ⟨⟨r, hsr, hforces⟩, hsw, _⟩ => ?_
    have hsw : s.Indexes w := hsw
    have hw := hsw.wellFormed hs
    rcases hsr with rfl | hsr
    · exact ⟨hw, ρ, h.forces hlisting ht hu hids hid hd hw hforces⟩
    · obtain ⟨ρ', h'⟩ := h.gives hlisting ht hu hids hid hd hs hsr
      exact ⟨hw, ρ', h'.forces hlisting ht hu hids hid hd hw hforces⟩

/-- Indexing a unit again leaves a session behind one that has indexed it. -/
theorem indexUnit_ahead (h : s.WellFormed ∧ ∃ ρ, Ahead ρ s t) :
    Meets .any (indexUnit u) s fun _ w => w.WellFormed ∧ ∃ ρ, Ahead ρ w t := by
  apply indexUnit_keeps_tables
  · exact fun ids hids id hid s hs => giveVariables_ahead hlisting ht hu hids hid hs
  · rintro s d ⟨hs, ρ, h⟩ hst
    exact ⟨hst.wellFormed hs, ρ, h.same rfl rfl rfl⟩
  · rintro s o ⟨hs, ρ, h⟩ hst
    exact ⟨hst.wellFormed hs, ρ, h.same rfl rfl rfl⟩
  · exact h

end

/-- Whatever some of the units make, in whatever order, has its counterpart in what all of them
leave. -/
theorem HasIndexed.ahead (hlisting : Listing units) (ht : HasIndexed options units t)
    (hdone : ∀ u ∈ done, u ∈ units) (h : s.WellFormed ∧ ∃ ρ, Ahead ρ s t)
    (hends : (indexUnits done).Ends s ⟨⟩ w) : ∃ ρ, Ahead ρ w t := by
  induction done generalizing s with
  | nil =>
    obtain ⟨-, rfl⟩ := ends_pure.1 hends
    exact h.2
  | cons u rest ih =>
    obtain ⟨_, r, hfirst, hrest⟩ := ends_bind.1 hends
    obtain ⟨made, hfirst⟩ := ends_discard.1 hfirst
    obtain ⟨hu, hdone⟩ := List.forall_mem_cons.1 hdone
    exact ih hdone ((indexUnit_ahead hlisting ht hu h).of_ends hfirst).2 hrest

/-! ## Tables that indexing leaves alone -/

/-- No unit was followed yet, and the variants of every name are in order. -/
structure Unvisited (s : Session) : Prop where
  wellFormed : s.WellFormed
  implicits : s.implicits = .empty
  pointees : s.pointees = .empty
  variants : ∀ name, (s.variants name).Ascending

theorem unvisited_new (options : Options) : (new options).Unvisited :=
  ⟨wellFormed_new options, rfl, rfl, fun _ => VarSet.ascending_empty⟩

/-- Noting a function keeps the variants of its name in order. -/
theorem noted_unvisited (h : s.Unvisited) (ht : (s.noted d).WellFormed) : (s.noted d).Unvisited where
  wellFormed := ht
  implicits := h.implicits
  pointees := h.pointees
  variants name := by
    unfold noted variants
    dsimp only
    split
    · rw [OrderedMap.find?_insert]
      split
      · exact (h.variants d.name).insertAll _
      · exact h.variants name
    · exact h.variants name

theorem opened_unvisited {o : Option OpenUnit} (h : s.Unvisited)
    (ht : WellFormed { s with opened := o }) : Unvisited { s with opened := o } :=
  ⟨ht, h.implicits, h.pointees, h.variants⟩

/-- Giving variables makes nothing on demand and keeps the variants in order. -/
theorem giveVariables_unvisited (u : TranslationUnit) (id : DeclId) (h : s.Unvisited) :
    Meets .any (giveVariables u id) s fun _ t => t.Unvisited := by
  refine (((giveVariables_gave u id h.wellFormed).frame.both
    (giveVariables_meets u id h.wellFormed)).widen fun _ _ => trivial).mono ?_
  intro _ w _ hgiven
  obtain ⟨hsupplies, -⟩ := hgiven.1
  have hsw : s.Indexes w := hgiven.2.1
  have hsupplies : w = { s with
    solver := w.solver, arena := w.arena, index := w.index, pairing := w.pairing } := hsupplies
  have hglobals : w.globals = s.globals := by rw [hsupplies]
  constructor
  case wellFormed => exact hsw.wellFormed h.wellFormed
  case implicits =>
    rw [hsupplies]
    exact h.implicits
  case pointees =>
    rw [hsupplies]
    exact h.pointees
  case variants =>
    intro name
    rw [variants, hglobals]
    exact h.variants name

/-- A session that has only indexed has followed no unit yet. -/
theorem indexUnits_unvisited (h : s.Unvisited) (hends : (indexUnits done).Ends s ⟨⟩ w) :
    w.Unvisited := by
  induction done generalizing s with
  | nil =>
    obtain ⟨-, rfl⟩ := ends_pure.1 hends
    exact h
  | cons u rest ih =>
    obtain ⟨_, r, hfirst, hrest⟩ := ends_bind.1 hends
    obtain ⟨made, hfirst⟩ := ends_discard.1 hfirst
    have hkeeps : Meets .any (indexUnit u) s fun _ t => t.Unvisited :=
      indexUnit_keeps_tables (fun _ _ id _ _ hs => giveVariables_unvisited u id hs)
        (fun _ _ hs hst => noted_unvisited hs (hst.wellFormed hs.wellFormed))
        (fun _ _ hs hst => opened_unvisited hs (hst.wellFormed hs.wellFormed)) h
    exact ih (hkeeps.of_ends hfirst).2 hrest

end Session

/-! ## Both orders -/

namespace TranslationUnit

variable {units units' : List TranslationUnit} {u : TranslationUnit}

/-- The unit declares a function without a body, under this key, that is the function of a
definition. -/
def HasPrototype (u : TranslationUnit) (f : DeclId) (key : FunctionKey) : Prop :=
  ∃ p, u.prototypeOf f = .ok (some p) ∧ u.keyOf p = .ok key

/-- Units agree on what is declared where, and on the prototype of a definition that several of them
have; at no anchor stand parameters of several functions, and keys tell functions apart. -/
structure Concordant (units : List TranslationUnit) : Prop where
  listing : Listing units
  undisputed : ∀ u ∈ units, ∀ f i, Undisputed units u f i
  keys : KeysTell units
  prototypes : ∀ u ∈ units, ∀ w ∈ units, ∀ f g d e, u.decl f = .ok d → w.decl g = .ok e →
    d.hasBody → d.anchor = e.anchor → ∀ key, u.HasPrototype f key → w.HasPrototype g key

/-- It is enough that parameters at one anchor belong to functions at one anchor, and that no
definition stands in two units. -/
theorem Concordant.of_decls (hlisting : Listing units) (hkeys : KeysTell units)
    (hparams : ∀ u ∈ units, ∀ d ∈ u.decls, ∀ a ∈ u.paramAnchors d, ∀ w ∈ units, ∀ e ∈ w.decls,
      a ∈ w.paramAnchors e → e.anchor = d.anchor)
    (hbodies : units.Pairwise fun u w => ∀ d ∈ u.decls, ∀ e ∈ w.decls, d.hasBody →
      e.anchor ≠ d.anchor) : Concordant units where
  listing := hlisting
  undisputed u hu f i d hd a ha w hw e he hea :=
    hparams u hu d (mem_decls hd) _ (List.mem_of_getElem? ha) w hw e he hea
  keys := hkeys
  prototypes := by
    let r (u w : TranslationUnit) : Prop := ∀ f g d e, u.decl f = .ok d → w.decl g = .ok e →
      d.hasBody → e.hasBody → d.anchor = e.anchor →
        ∀ key, u.HasPrototype f key ↔ w.HasPrototype g key
    have hsymm : Std.Symm r := ⟨fun u w h f g d e hd he hbody hbody' ha key =>
      (h g f e d he hd hbody' hbody ha.symm key).symm⟩
    have hapart : units.Pairwise r := hbodies.imp fun h f g d e hd he hbody _ ha =>
      absurd ha.symm (h d (mem_decls hd) e (mem_decls he) hbody)
    have hall := hapart.forall_of_forall fun u hu f g d e hd he _ _ ha key => by
      rw [hlisting.eq_of_anchor hu hd he ha]
    intro u hu w hw f g d e hd he hbody ha key
    have hsame := (hlisting.agree u hu w hw d (mem_decls hd) e (mem_decls he) ha).1
    exact (hall hu hw f g d e hd he hbody
      (Decl.eq_of_outline Decl.outline_hasBody hsame ▸ hbody) ha key).1

theorem Listing.perm (h : Listing units) (hperm : units.Perm units') : Listing units' where
  anchors u hu := h.anchors u (hperm.mem_iff.2 hu)
  agree u hu w hw := h.agree u (hperm.mem_iff.2 hu) w (hperm.mem_iff.2 hw)
  declared u hu := h.declared u (hperm.mem_iff.2 hu)
  unlisted u hu := h.unlisted u (hperm.mem_iff.2 hu)
  owned u hu := h.owned u (hperm.mem_iff.2 hu)
  once u hu := h.once u (hperm.mem_iff.2 hu)

theorem functionDecls_perm (hperm : units.Perm units') :
    (functionDecls units).Perm (functionDecls units') := by
  unfold functionDecls
  exact hperm.flatMap_right _

/-- The order of the units does not matter. -/
theorem Concordant.perm (h : Concordant units) (hperm : units.Perm units') :
    Concordant units' where
  listing := h.listing.perm hperm
  undisputed u hu f i d hd a ha w hw :=
    h.undisputed u (hperm.mem_iff.2 hu) f i d hd a ha w (hperm.mem_iff.2 hw)
  keys d hd d' hd' :=
    h.keys d ((functionDecls_perm hperm).mem_iff.2 hd) d' ((functionDecls_perm hperm).mem_iff.2 hd')
  prototypes u hu w hw := h.prototypes u (hperm.mem_iff.2 hu) w (hperm.mem_iff.2 hw)

end TranslationUnit

namespace Session

variable {b b' s : Session} {units units' : List TranslationUnit} {options : Options} {a : Anchor}
  {v : VarId}

theorem hasIndexed_of_ends (h : (indexUnits units).Ends (.new options) ⟨⟩ b) :
    HasIndexed options units b := HasIndexed.new.all h

/-- At every anchor stands one variable at most. -/
theorem HasIndexed.lone (h : HasIndexed options units b) (hunits : Concordant units) {w : VarId}
    (hv : v ∈ b.storedAt a) (hw : w ∈ b.storedAt a) : w = v := by
  by_cases hparam : ParamAt units a
  · obtain ⟨site, ⟨u, hu, f, d, hd, hfun, rfl⟩, ha⟩ := hparam
    obtain ⟨i, hi⟩ := List.mem_iff_getElem?.1 ha
    obtain ⟨x, g, hseated⟩ := h.seated hunits.listing hu hd hfun
    obtain ⟨p, -, -, halone⟩ := hseated.slots i a hi
    have hall := halone (hunits.listing.owns_param hu hd hi (hunits.undisputed u hu f i))
    rw [hall v hv, hall w hw]
  · exact (h.grown hunits.listing fun _ h => h).planted.alone a hparam v hv w hw

theorem HasIndexed.storedAt_eq (h : HasIndexed options units b) (hunits : Concordant units)
    (hv : v ∈ b.storedAt a) : b.storedAt a = .singleton v :=
  (h.reachable.ascending a).ext (VarSet.ascending_singleton v) fun w =>
    ⟨fun hw => (VarSet.mem_singleton v w).2 (h.lone hunits hv hw),
      fun hw => (VarSet.mem_singleton v w).1 hw ▸ hv⟩

theorem Reachable.storedAt_eq_empty (h : Reachable options b) (hnone : ∀ v, v ∉ b.storedAt a) :
    b.storedAt a = .empty :=
  (h.ascending a).ext VarSet.ascending_empty fun v =>
    ⟨fun hv => absurd hv (hnone v), fun hv => absurd hv (VarSet.not_mem_empty v)⟩

theorem exists_ahead (hunits : Concordant units) (hperm : units.Perm units')
    (hb : (indexUnits units).Ends (.new options) ⟨⟩ b)
    (hb' : (indexUnits units').Ends (.new options) ⟨⟩ b') : ∃ ρ, Ahead ρ b b' :=
  (hasIndexed_of_ends hb').ahead (hunits.listing.perm hperm) (fun _ hu => hperm.mem_iff.1 hu)
    ⟨wellFormed_new options, .id, ahead_new options b'⟩ hb

/-- Every function variable of an indexed session was made for one of the declarations. -/
theorem exists_origins (h : (indexUnits units).Ends (.new options) ⟨⟩ b) :
    ∃ made, Origins (Declares units) made b :=
  ((indexUnits_traces units (wellFormed_new options)).of_ends h).2.origins _ _
    (fun _ _ _ h => h) Origins.new

theorem HasIndexed.contains_iff (h : HasIndexed options units b) (hunits : Concordant units) :
    b.index.contains a ↔ ∃ v, v ∈ b.storedAt a :=
  ⟨(h.grown hunits.listing fun _ h => h).planted.filled a,
    fun ⟨_, hv⟩ => contains_of_mem_storedAt hv⟩

section

variable {ρ σ : Renaming} (hunits : Concordant units) (hperm : units.Perm units')
  (h : HasIndexed options units b) (h' : HasIndexed options units' b') (hforth : Ahead ρ b b')

include hunits hperm h h' hforth

/-- With counterparts both ways, what stands at an anchor is the same. -/
theorem Ahead.tracks (hback : Ahead σ b' b) (a : Anchor) :
    Tracks ρ b b' (b.storedAt a) (b'.storedAt a) := by
  by_cases hsome : ∃ v, v ∈ b.storedAt a
  · obtain ⟨v, hv⟩ := hsome
    have hv' := hforth.stored a v hv
    rw [h.storedAt_eq hunits hv, h'.storedAt_eq (hunits.perm hperm) hv']
    exact .singleton h.reachable.wellFormed hforth.embeds.arena
      (h.reachable.wellFormed.stored_lt hv)
  · have hsome' : ¬ ∃ v, v ∈ b'.storedAt a := fun ⟨v, hv⟩ => hsome ⟨_, hback.stored a v hv⟩
    rw [h.reachable.storedAt_eq_empty fun v hv => hsome ⟨v, hv⟩,
      h'.reachable.storedAt_eq_empty fun v hv => hsome' ⟨v, hv⟩]
    exact .empty ρ b b'

theorem Ahead.contains_eq (hback : Ahead σ b' b) (a : Anchor) :
    b'.index.contains a = b.index.contains a := by
  rw [Bool.eq_iff_iff, h'.contains_iff (hunits.perm hperm), h.contains_iff hunits]
  constructor
  · rintro ⟨v, hv⟩
    exact ⟨_, hback.stored a v hv⟩
  · rintro ⟨v, hv⟩
    exact ⟨_, hforth.stored a v hv⟩

end

/-- What is declared under a key has its counterpart under it. -/
theorem Ahead.declared {ρ : Renaming} {made made' : Making → Prop} {key : FunctionKey}
    {set : VarSet} (hunits : Concordant units) (hperm : units.Perm units') (hb : b.pairing.Tight)
    (horigins : Origins (Declares units) made b) (horigins' : Origins (Declares units') made' b')
    (hforth : Ahead ρ b b') (hset : b.pairing.declared? key = some set) :
    ∃ set', b'.pairing.declared? key = some set' ∧ ∀ v ∈ set, ρ.var v ∈ set' := by
  have hmoved : ∀ v ∈ set, ρ.var v ∈ b'.pairing.declaredUnder key := fun v hv => by
    have hv : v ∈ b.pairing.declaredUnder key := by rwa [Pairing.declaredUnder, hset]
    obtain ⟨m, hm, rfl, hbody, rfl⟩ := (horigins.declarations key v).1 hv
    obtain ⟨f, hf, -⟩ := horigins.var m hm
    exact horigins'.declared_of_stored (hunits.perm hperm).keys
      ((functionDecls_perm hperm).mem_iff.1 (horigins.mem_functionDecls hm)) hbody
      (hforth.stored _ _ (horigins.place m hm))
      (Arena.isFunction_iff.2 ⟨_, hforth.embeds.arena.function? hf⟩)
  obtain ⟨v, hv⟩ := hb.declared key set hset
  unfold Pairing.declaredUnder at hmoved
  cases hset' : b'.pairing.declared? key with
  | none =>
    have hnone := hmoved v hv
    rw [hset'] at hnone
    exact absurd hnone (VarSet.not_mem_empty _)
  | some set' =>
    rw [hset'] at hmoved
    exact ⟨set', rfl, hmoved⟩

/-- What is left by indexing units in one order stands in what is left by another. -/
theorem exists_embeds (hunits : Concordant units) (hperm : units.Perm units')
    (hb : (indexUnits units).Ends (.new options) ⟨⟩ b)
    (hb' : (indexUnits units').Ends (.new options) ⟨⟩ b') : ∃ ρ, b.Embeds ρ b' := by
  obtain ⟨ρ, hforth⟩ := exists_ahead hunits hperm hb hb'
  obtain ⟨σ, hback⟩ := exists_ahead (hunits.perm hperm) hperm.symm hb' hb
  obtain ⟨made, horigins⟩ := exists_origins hb
  obtain ⟨made', horigins'⟩ := exists_origins hb'
  have h := hasIndexed_of_ends hb
  have h' := hasIndexed_of_ends hb'
  have hunvisited := indexUnits_unvisited (unvisited_new options) hb
  refine ⟨ρ, ?_⟩
  constructor
  case wellFormed => exact h.reachable.wellFormed
  case options => rw [h.reachable.options_eq, h'.reachable.options_eq]
  case arena => exact hforth.embeds.arena
  case recorded => exact hforth.embeds.recorded
  case index => exact hforth.contains_eq hunits hperm h h' hback
  case stored => exact hforth.tracks hunits hperm h h' hback
  case declared => exact fun _ _ hset =>
    hforth.declared hunits hperm h.reachable.tight horigins horigins' hset
  -- nothing was followed yet, and no unit is open
  case implicits =>
    intro key set hset
    rw [hunvisited.implicits] at hset
    cases hset
  case pointees =>
    intro v m hm
    rw [hunvisited.pointees] at hm
    cases hm
  case opened =>
    intro o ho
    rw [opened_of_indexUnits hb' rfl] at ho
    cases ho

end Session

end CheckedPointers
