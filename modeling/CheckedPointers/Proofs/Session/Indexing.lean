import CheckedPointers.Proofs.Session.Creation

/-!
Giving declarations their variables. The tables grow, an anchor keeps its first function variable,
and whatever function variable stands at the anchor of a global declaration is a variant of its
name, from the moment it is noted to the end of the indexing.
-/
namespace CheckedPointers

open Op

namespace Pairing

/-- Under some key stands what stood there and the variable that is added. -/
theorem exists_mem_addTo {key : FunctionKey} {v w : VarId} {l : List (FunctionKey × VarSet)} :
    (∃ e ∈ addTo key v l, w ∈ e.2) ↔ w = v ∨ ∃ e ∈ l, w ∈ e.2 := by
  induction l with
  | nil => simp [addTo]
  | cons x rest ih =>
    obtain ⟨k, set⟩ := x
    rw [addTo]
    split
    · simp [or_assoc]
    · simp only [List.mem_cons, exists_eq_or_imp, ih]
      exact or_left_comm

theorem mem_declare {r : Pairing} {key : FunctionKey} {v w : VarId} {e : FunctionKey × VarSet}
    (he : e ∈ (r.declare key v).declarations.entries) (hw : w ∈ e.2) :
    w = v ∨ ∃ e' ∈ r.declarations.entries, w ∈ e'.2 := by
  rcases OrderedMap.mem_insert he with rfl | he
  · refine ((VarSet.mem_insert _ v w).1 hw).imp_right fun h => ?_
    cases hd : r.declared? key with
    | none => simp [hd] at h
    | some set =>
      rw [hd] at h
      exact ⟨_, OrderedMap.mem_of_find? hd, h⟩
  · exact .inr ⟨e, he, hw⟩

end Pairing

namespace Decl

theorem isDeclarator_of_isFunction {d : Decl} (h : d.isFunction) :
    d.isDeclarator = true ∧ ∃ ty, d.ty? = some ty := by
  unfold isFunction at h
  unfold isDeclarator ty?
  split at h
  · next hkind => simp [hkind]
  · cases h

theorem ty_isFunction_of_isFunction {d : Decl} {ty : CType} (h : d.isFunction)
    (hty : d.ty? = some ty) : ty.isFunction := by
  unfold isFunction at h
  unfold ty? at hty
  split at h
  · next hkind =>
    rw [hkind] at hty
    cases hty
    rfl
  · cases h

theorem isFunction_of_isGlobalFunction {d : Decl} (h : d.isGlobalFunction) : d.isFunction := by
  unfold isGlobalFunction at h
  unfold isFunction
  split at h
  · rfl
  · cases h

end Decl

namespace Session

variable {s t : Session}

theorem storedAt_insert (s : Session) (anchor a : Anchor) (set : VarSet) :
    { s with index := s.index.insert anchor set : Session }.storedAt a =
      if a = anchor then set else s.storedAt a := by
  unfold storedAt
  rw [OrderedMap.find?_insert]
  split <;> rfl

theorem variants_insert (s : Session) (name n : String) (set : VarSet) :
    { s with globals := s.globals.insert name set : Session }.variants n =
      if n = name then set else s.variants n := by
  unfold variants
  rw [OrderedMap.find?_insert]
  split <;> rfl

/-! ## The tables -/

theorem mem_storedAt_insert (s : Session) (anchor a : Anchor) (vs : VarSet) (v : VarId) :
    v ∈ ({ s with
        index := s.index.insert anchor ((s.storedAt anchor).union vs) } : Session).storedAt a ↔
      v ∈ s.storedAt a ∨ a = anchor ∧ v ∈ vs := by
  rw [storedAt_insert]
  split
  · next ha =>
    subst ha
    simp [or_comm]
  · next ha => simp [ha]

/-- Storing keeps what was stored. An anchor that has a function variable may get pointers only. -/
theorem store_meets {anchor : Anchor} {vs : VarSet} (hlt : ∀ v ∈ vs, v < s.arena.size)
    (hkept : (∃ v ∈ s.storedAt anchor, s.arena.isFunction v) →
      ∀ v ∈ vs, s.arena.isFunction v → v ∈ s.storedAt anchor) :
    Meets .indexes (store anchor vs) s fun _ t => t.arena = s.arena ∧
      ∀ a v, v ∈ t.storedAt a ↔ v ∈ s.storedAt a ∨ a = anchor ∧ v ∈ vs := by
  refine Meets.modify ⟨.of_tables rfl rfl rfl rfl fun hs => ?_, fun a v hv => ?_, fun _ _ => id,
    fun _ a hex v hv hfun => ?_⟩ ⟨rfl, fun a => mem_storedAt_insert s anchor a vs⟩
  · refine { hs with index := fun e he v hv => ?_ }
    rcases OrderedMap.mem_insert he with rfl | he
    · rcases (VarSet.mem_union _ _ v).1 hv with hv | hv
      · exact hlt v hv
      · exact hs.stored_lt hv
    · exact hs.index e he v hv
  · exact (mem_storedAt_insert s anchor a vs v).2 (.inl hv)
  · rcases (mem_storedAt_insert s anchor a vs v).1 hv with hold | ⟨rfl, hnew⟩
    · exact hold
    · exact hkept hex v hnew hfun

/-- A change of the registry that adds no variable but functions and drops no definition. -/
theorem updatePairing_meets {f : Pairing → Pairing}
    (hdef : ∀ r, ∀ e ∈ (f r).definitions, ∀ w ∈ e.2,
      s.arena.isFunction w ∨ ∃ e' ∈ r.definitions, w ∈ e'.2)
    (hkept : ∀ r w, (∃ e ∈ r.definitions, w ∈ e.2) → ∃ e ∈ (f r).definitions, w ∈ e.2)
    (hdecl : ∀ r, ∀ e ∈ (f r).declarations.entries, ∀ w ∈ e.2,
      s.arena.isFunction w ∨ ∃ e' ∈ r.declarations.entries, w ∈ e'.2) :
    Meets .visits (updatePairing f) s fun _ t => t = { s with pairing := f s.pairing } := by
  refine Meets.modify ⟨⟨⟨rfl, .refl _, .refl _, hkept _, fun hs => ?_⟩, rfl, rfl, fun _ _ => id,
    fun _ _ => id⟩, fun o ho => ⟨o, ho, .refl o⟩⟩ rfl
  refine { hs with definitions := fun e he w hw => ?_, declarations := fun e he w hw => ?_ }
  · rcases hdef _ e he w hw with h | ⟨e', he', h⟩
    · exact h
    · exact hs.definitions e' he' w h
  · rcases hdecl _ e he w hw with h | ⟨e', he', h⟩
    · exact h
    · exact hs.declarations e' he' w h

theorem define_meets {key : FunctionKey} {v : VarId} (hv : s.arena.isFunction v) :
    Meets .visits (updatePairing (·.define key v)) s fun _ t => t.Registered v := by
  have hupdate : Meets .visits (updatePairing (·.define key v)) s fun _ t =>
      t = { s with pairing := s.pairing.define key v } := by
    refine updatePairing_meets (fun r e he w hw => ?_)
      (fun _ _ h => Pairing.exists_mem_addTo.2 (.inr h)) fun _ e he _ hw => .inr ⟨e, he, hw⟩
    have h : ∃ e ∈ Pairing.addTo key v r.definitions, w ∈ e.2 := ⟨e, he, hw⟩
    rcases Pairing.exists_mem_addTo.1 h with rfl | h
    · exact .inl hv
    · exact .inr h
  refine hupdate.mono fun _ t _ ht => ?_
  rw [ht]
  exact Pairing.exists_mem_addTo.2 (.inl rfl)

theorem declare_meets {key : FunctionKey} {v : VarId} (hv : s.arena.isFunction v) :
    Meets .visits (updatePairing (·.declare key v)) s fun _ t =>
      t = { s with pairing := s.pairing.declare key v } := by
  refine updatePairing_meets (fun _ e he _ hw => .inr ⟨e, he, hw⟩) (fun _ _ => id)
    fun r e he w hw => ?_
  have h : w = v ∨ ∃ e' ∈ r.declarations.entries, w ∈ e'.2 := Pairing.mem_declare he hw
  rcases h with rfl | h
  · exact .inl hv
  · exact .inr h

theorem pair_meets (key key' : FunctionKey) (s : Session) :
    Meets .visits (updatePairing (·.pair key key')) s fun _ t =>
      t = { s with pairing := s.pairing.pair key key' } :=
  updatePairing_meets (fun _ e he _ hw => .inr ⟨e, he, hw⟩) (fun _ _ => id)
    fun _ e he _ hw => .inr ⟨e, he, hw⟩

/-! ## Bodies -/

def Backed (s : Session) (v : VarId) : Prop :=
  ∀ f, s.arena.function? v = some f → f.hasBody → s.Registered v

/-- Every function with a body that stands at an anchor is registered. -/
def Complete (s : Session) : Prop := ∀ anchor, ∀ v ∈ s.storedAt anchor, s.Backed v

def AddsPointers (s t : Session) : Prop :=
  ∀ anchor, ∀ v ∈ t.storedAt anchor, v ∈ s.storedAt anchor ∨ t.arena.isPointer v

theorem complete_new (options : Options) : (new options).Complete := by
  intro anchor v hv
  exact absurd hv (VarSet.not_mem_empty v)

theorem backed_of_isPointer {v : VarId} (h : s.arena.isPointer v) : s.Backed v :=
  fun f hf _ => absurd (Arena.isFunction_iff.2 ⟨f, hf⟩) (Arena.not_isFunction h)

/-- Definitions stay registered if all that newly stands at anchors is. -/
theorem Complete.extends (h : s.Complete) (hs : s.WellFormed) (hst : s.Extends t)
    (hstored : ∀ anchor, ∀ v ∈ t.storedAt anchor, v ∈ s.storedAt anchor ∨ t.Backed v) :
    t.Complete := by
  intro anchor v hv
  rcases hstored anchor v hv with hold | hbacked
  · intro f hf hbody
    rw [hst.arena.function?_eq (hs.stored_lt hold)] at hf
    exact hst.registered v (h anchor v hold f hf hbody)
  · exact hbacked

theorem AddsPointers.complete (h : s.AddsPointers t) (hs : s.WellFormed) (hst : s.Extends t)
    (hc : s.Complete) : t.Complete :=
  hc.extends hs hst fun anchor v hv => (h anchor v hv).imp_right backed_of_isPointer

theorem Follows.addsPointers (h : s.Follows t) : s.AddsPointers t := by
  intro anchor v hv
  rw [storedAt, h.index] at hv
  exact .inl hv

/-! ## Declarations -/

/-- Storing parameters puts pointers at anchors and nothing else. -/
theorem storeSlots_meets (u : TranslationUnit) (slots : List (DeclId × VarSet)) {s : Session}
    (h : ∀ e ∈ slots, ∀ v ∈ e.2, s.arena.isPointer v) :
    Meets .indexes (storeSlots u slots) s fun _ t => s.AddsPointers t := by
  induction slots generalizing s with
  | nil => exact Meets.pure fun _ _ => .inl
  | cons e rest ih =>
    have hslot := h e List.mem_cons_self
    refine Meets.bind_lift fun d _ => ?_
    refine Meets.bind (store_meets (fun v hv => Arena.lt_of_isPointer (hslot v hv)) ?_)
      fun _ t _ hstored => ?_
    · intro _ v hv hfun
      exact absurd hfun (Arena.not_isFunction (hslot v hv))
    · obtain ⟨ht, hmem⟩ := hstored
      refine Meets.mono (Meets.frame (ih ?_)) fun _ w _ hrest anchor v hv => ?_
      · intro e' he'
        rw [ht]
        exact h e' (List.mem_cons_of_mem _ he')
      · obtain ⟨htw, hrest⟩ := hrest
        rcases hrest anchor v hv with hv | hv
        · refine ((hmem anchor v).1 hv).imp_right fun hnew => htw.arena.isPointer ?_
          rw [ht]
          exact hslot v hnew.2
        · exact .inr hv

/-- A definition is registered, and only pointers are stored beside it. -/
theorem recordFunction_meets (u : TranslationUnit) (func : DeclId) {v : VarId}
    (hs : s.WellFormed) (hv : s.arena.isFunction v) :
    Meets .indexes (recordFunction u func v) s fun _ t => s.AddsPointers t ∧
      ∀ d, u.decl func = .ok d → d.hasBody → t.Registered v := by
  refine Meets.bind_lift fun d hd => ?_
  have hstore : ∀ t, s.Follows t → (d.hasBody → t.Registered v) → Meets .indexes (do
      let slots := (((← get).arena.function? v).map FunctionVariable.params).getD []
      storeSlots u (d.params.zip slots)) t fun _ w => s.AddsPointers w ∧
        ∀ d, u.decl func = .ok d → d.hasBody → w.Registered v := by
    intro t hst hregistered
    refine Meets.bind_get (Meets.mono (Meets.frame (storeSlots_meets u _ fun e he w hw => ?_)) ?_)
    · obtain ⟨f, hf⟩ := Arena.isFunction_iff.1 (hst.arena.isFunction hv)
      have hmem := (List.of_mem_zip he).2
      rw [hf] at hmem
      exact ((hst.wellFormed hs).arena.slots hf (List.mem_cons_of_mem _ hmem)).isPointer hw
    · rintro _ w - ⟨htw, hadds⟩
      refine ⟨fun anchor x hx => ?_, fun d' hd' hbody => htw.registered v (hregistered ?_)⟩
      · rcases hadds anchor x hx with hx | hx
        · rw [storedAt, hst.index] at hx
          exact .inl hx
        · exact .inr hx
      · rwa [Except.ok.inj (hd'.symm.trans hd)] at hbody
  dsimp only
  split
  · refine Meets.bind (define_meets hv).frame.to_follows.to_indexes fun _ t _ hdefined =>
      Meets.bind_lift fun o _ => ?_
    have hst := hdefined.1.toFollows
    split
    · refine Meets.bind_lift fun key _ => ?_
      refine Meets.bind (pair_meets _ _ t).frame.to_follows.to_indexes fun _ w _ htw => ?_
      exact hstore w (hst.trans htw.1.toFollows) fun _ => htw.1.registered v hdefined.2
    · exact hstore t hst fun _ => hdefined.2
  · next hno =>
    refine Meets.bind (declare_meets hv).frame.to_follows.to_indexes fun _ t _ hst => ?_
    exact hstore t hst.1.toFollows fun hbody => absurd hbody hno

/-- A new variable may be stored where no function variable stands, and a new pointer anywhere. -/
theorem store_new_meets {anchor : Anchor} {v : VarId} (hst : s.Creates t) (hs : s.WellFormed)
    (hv : v < t.arena.size)
    (hfree : t.arena.isFunction v → ∀ w ∈ s.storedAt anchor, ¬ s.arena.isFunction w) :
    Meets .indexes (store anchor (.singleton v)) t fun _ w => w.arena = t.arena ∧
      ∀ a x, x ∈ w.storedAt a ↔ x ∈ s.storedAt a ∨ a = anchor ∧ x = v := by
  have hstored : ∀ a, t.storedAt a = s.storedAt a := fun a => by rw [storedAt, hst.only, storedAt]
  refine (store_meets (fun w hw => ?_) ?_).mono fun _ w _ h => ⟨h.1, fun a x => ?_⟩
  · rwa [(VarSet.mem_singleton v w).1 hw]
  · rintro ⟨x, hx, hxfun⟩ w hw hfun
    rw [(VarSet.mem_singleton v w).1 hw] at hfun
    rw [hstored] at hx
    rw [hst.arena.isFunction_eq (hs.stored_lt hx)] at hxfun
    exact absurd hxfun (hfree hfun x hx)
  · rw [h.2, hstored, VarSet.mem_singleton]

/-- Where a declarator has function type, a function variable stands afterwards, and whatever has
a body is registered. -/
theorem giveFunction_meets (u : TranslationUnit) (func : DeclId) (d : Decl) (ty : CType)
    (hs : s.WellFormed) :
    Meets .indexes (giveFunction u func d ty) s fun _ t =>
      (ty.isFunction → ∃ v ∈ t.storedAt d.anchor, t.arena.isFunction v) ∧
        (s.Complete → t.Complete) := by
  refine Meets.bind_get ?_
  split
  · next hnone =>
    simp only [Bool.and_eq_true, Bool.not_eq_true', List.any_eq_false] at hnone
    refine Meets.bind (newFunction_meets u func s).frame.to_visits.to_follows.to_indexes
      fun v t _ hnew => ?_
    obtain ⟨hst, d', f, hd', -, hf, -, hbody⟩ := hnew
    have hv : t.arena.isFunction v := Arena.isFunction_iff.2 ⟨f, hf⟩
    have hstore := store_new_meets hst hs (Arena.lt_of_isFunction hv) fun _ => hnone.2
    refine Meets.bind hstore.frame fun _ w _ hstored => ?_
    obtain ⟨htw, harena, hmem⟩ := hstored
    have hw := htw.wellFormed (hst.wellFormed hs)
    have hfun : w.arena.isFunction v := harena ▸ hv
    refine Meets.bind (recordFunction_meets u func hw hfun).frame fun _ z _ hrecorded =>
      Meets.pure ⟨fun _ => ?_, fun hc => ?_⟩
    · exact ⟨v, hrecorded.1.index _ v ((hmem _ v).2 (.inr ⟨rfl, rfl⟩)),
        hrecorded.1.arena.isFunction hfun⟩
    · obtain ⟨hwz, hadds, hregistered⟩ := hrecorded
      have hsz := (hst.toExtends.trans htw.toExtends).trans hwz.toExtends
      refine hc.extends hs hsz fun anchor x hx => ?_
      rcases hadds anchor x hx with hx | hx
      · refine ((hmem anchor x).1 hx).imp_right fun hnew => ?_
        rw [hnew.2]
        intro g hg hgbody
        rw [hwz.arena.function?_eq (Arena.lt_of_isFunction hfun), harena, hf] at hg
        refine hregistered d' hd' ?_
        rwa [← hbody, Option.some.inj hg]
      · exact .inr (backed_of_isPointer hx)
  · next hsome =>
    refine Meets.pure ⟨fun hty => ?_, id⟩
    simp only [hty, Bool.true_and, Bool.not_eq_true', Bool.not_eq_false, List.any_eq_true] at hsome
    exact hsome

theorem givePointer_meets (d : Decl) (ty : CType) (hs : s.WellFormed) :
    Meets .indexes (givePointer d ty) s fun _ t => s.AddsPointers t := by
  refine Meets.bind_get ?_
  split
  · refine Meets.bind (newPointer_meets ty d.name d.itype? s).frame.to_visits.to_follows.to_indexes
      fun v t _ hnew => ?_
    obtain ⟨hst, hv⟩ := hnew
    refine Meets.bind (store_new_meets hst hs (Arena.lt_of_isPointer hv) fun hfun => ?_)
      fun _ w _ hstored => Meets.pure fun a x hx => ?_
    · exact absurd hfun (Arena.not_isFunction hv)
    · refine ((hstored.2 a x).1 hx).imp_right fun hnew => ?_
      rwa [hnew.2, hstored.1]
  · exact Meets.pure fun _ _ => .inl

/-- A function declaration has its variable, and definitions stay registered. -/
theorem giveVariables_meets (u : TranslationUnit) (id : DeclId) (hs : s.WellFormed) :
    Meets .indexes (giveVariables u id) s fun _ t =>
      (∀ d, u.decl id = .ok d → d.isFunction →
        ∃ v ∈ t.storedAt d.anchor, t.arena.isFunction v) ∧ (s.Complete → t.Complete) := by
  refine Meets.bind_requireOpen fun _ _ => Meets.bind_lift fun d hd => ?_
  have hsame : ∀ d', u.decl id = .ok d' → d' = d := fun d' hd' =>
    Except.ok.inj (hd'.symm.trans hd)
  split
  · next ty _ hty =>
    refine Meets.bind (giveFunction_meets u id d ty hs).frame fun _ t _ hgiven => ?_
    obtain ⟨hst, hfun, hcomplete⟩ := hgiven
    have ht := hst.wellFormed hs
    refine Meets.bind (givePointer_meets d ty ht).frame fun _ w _ hpointer => ?_
    obtain ⟨htw, hadds⟩ := hpointer
    have hkept : ∀ z, w.Follows z → (∀ d', u.decl id = .ok d' → d'.isFunction →
        ∃ v ∈ z.storedAt d'.anchor, z.arena.isFunction v) ∧ (s.Complete → z.Complete) := by
      intro z hwz
      constructor
      · intro d' hd' hisfun
        rw [hsame d' hd'] at hisfun ⊢
        obtain ⟨v, hv, hvfun⟩ := hfun (Decl.ty_isFunction_of_isFunction hisfun hty)
        have htz := htw.trans hwz.indexes
        exact ⟨v, htz.index _ v hv, htz.arena.isFunction hvfun⟩
      · intro hc
        have hcw := hadds.complete ht htw.toExtends (hcomplete hc)
        exact hwz.addsPointers.complete (htw.wellFormed ht) hwz.toExtends hcw
    dsimp only
    split
    · refine Meets.bind_get ?_
      split
      · next set _ =>
        have hbound : Meets .records (discard (boundSet set .leastSafe)) w fun _ _ => True :=
          Meets.discard (boundSet_meets set _ w).any
        refine Meets.bind hbound.to_creates.to_visits.to_follows.frame.to_indexes fun _ z _ hz => ?_
        exact Meets.pure (hkept z hz.1)
      · exact Meets.pure (hkept w (.refl w))
    · exact Meets.pure (hkept w (.refl w))
  · next hno =>
    refine Meets.pure ⟨fun d' hd' hisfun => ?_, fun hc => hc⟩
    rw [hsame d' hd'] at hisfun
    obtain ⟨hdecl, ty, hty⟩ := Decl.isDeclarator_of_isFunction hisfun
    exact absurd hty (hno ty hdecl)

/-! ## Variants -/

/-- A function variable stands at an anchor, and all that do are variants of a name. -/
structure Noted (s : Session) (anchor : Anchor) (name : String) : Prop where
  stored : ∃ v ∈ s.storedAt anchor, s.arena.isFunction v
  variant : ∀ v ∈ s.storedAt anchor, s.arena.isFunction v → v ∈ s.variants name

/-- What was noted needs no second look: no function variable is added at its anchor. -/
theorem Noted.indexes {anchor : Anchor} {name : String} (h : s.Noted anchor name)
    (hs : s.WellFormed) (hst : s.Indexes t) : t.Noted anchor name where
  stored := by
    obtain ⟨v, hv, hfun⟩ := h.stored
    exact ⟨v, hst.index anchor v hv, hst.arena.isFunction hfun⟩
  variant v hv hfun := by
    have hold := hst.function_kept hs anchor h.stored v hv hfun
    rw [hst.arena.isFunction_eq (hs.stored_lt hold)] at hfun
    exact hst.globals name v (h.variant v hold hfun)

/-- The function variables at an anchor become variants of a name. -/
theorem addVariants_meets (anchor : Anchor) (name : String) (s : Session) :
    let variants := (s.storedAt anchor).members.filter s.arena.isFunction
    let known := (s.globals.find? name).getD .empty
    Meets .indexes
      (modify fun s => { s with globals := s.globals.insert name (known.insertAll variants) }) s
      fun _ t => s.AddsPointers t ∧
        ∀ v ∈ t.storedAt anchor, t.arena.isFunction v → v ∈ t.variants name := by
  refine Meets.modify ⟨.of_tables rfl rfl rfl rfl fun hs => ?_, fun _ _ => id,
    fun n v hv => ?_, fun _ _ _ _ hv _ => hv⟩ ⟨fun _ _ => .inl, fun v hv hfun => ?_⟩
  · refine { hs with globals := fun e he v hv => ?_ }
    rcases OrderedMap.mem_insert he with rfl | he
    · rcases (VarSet.mem_insertAll _ _ v).1 hv with hv | hv
      · exact (List.mem_filter.1 hv).2
      · exact hs.variant hv
    · exact hs.globals e he v hv
  · rw [variants_insert]
    split
    · next hn => exact (VarSet.mem_insertAll _ _ v).2 (.inr (hn ▸ hv))
    · exact hv
  · rw [variants_insert, if_pos rfl]
    exact (VarSet.mem_insertAll _ _ v).2 (.inl (List.mem_filter.2 ⟨hv, hfun⟩))

/-- The functions at the anchor of a global declaration become variants of its name. -/
theorem noteFunction_meets (u : TranslationUnit) (func : DeclId) (s : Session) :
    Meets .indexes (noteFunction u func) s fun _ t => s.AddsPointers t ∧
      ∀ d, u.decl func = .ok d → d.isGlobalFunction →
        ∀ v ∈ t.storedAt d.anchor, t.arena.isFunction v → v ∈ t.variants d.name := by
  refine Meets.bind_requireOpen fun _ _ => Meets.bind_lift fun d hd => ?_
  have hsame : ∀ d', u.decl func = .ok d' → d' = d := fun d' hd' =>
    Except.ok.inj (hd'.symm.trans hd)
  split
  · refine Meets.bind (P := fun _ t => t.index = s.index ∧ t.arena = s.arena)
      (Meets.modify ?_ ⟨rfl, rfl⟩) fun _ t _ hsaw => Meets.bind_get ?_
    · refine ⟨.of_tables rfl rfl rfl rfl fun hs => ?_, fun _ _ => id, fun _ _ => id,
        fun _ _ _ _ hv _ => hv⟩
      exact { hs with index := hs.index }
    · have hstored : ∀ anchor, t.storedAt anchor = s.storedAt anchor := fun anchor => by
        rw [storedAt, hsaw.1, storedAt]
      dsimp only
      split
      · refine (addVariants_meets d.anchor d.name t).mono fun _ w _ h => ?_
        refine ⟨fun anchor v hv => hstored anchor ▸ h.1 anchor v hv, fun d' hd' _ => ?_⟩
        rw [hsame d' hd']
        exact h.2
      · next hnone =>
        refine Meets.pure ⟨fun anchor v hv => .inl (hstored anchor ▸ hv), ?_⟩
        intro d' hd' _ v hv hfun
        rw [hsame d' hd'] at hv
        have hv : v ∈ (t.storedAt d.anchor).members.filter t.arena.isFunction :=
          List.mem_filter.2 ⟨hv, hfun⟩
        simp only [Bool.not_eq_true', Bool.not_eq_false, List.isEmpty_iff] at hnone
        rw [hnone] at hv
        cases hv
  · next hlocal =>
    refine Meets.pure ⟨fun _ _ => .inl, fun d' hd' hglobal => ?_⟩
    rw [hsame d' hd'] at hglobal
    exact absurd hglobal hlocal

structure NotedAll (s : Session) (u : TranslationUnit) (ids : List DeclId) : Prop where
  stored : ∀ id ∈ ids, ∀ d, u.decl id = .ok d → d.isFunction →
    ∃ v ∈ s.storedAt d.anchor, s.arena.isFunction v
  noted : ∀ id ∈ ids, ∀ d, u.decl id = .ok d → d.isGlobalFunction → s.Noted d.anchor d.name

theorem NotedAll.indexes {u : TranslationUnit} {ids : List DeclId} (h : s.NotedAll u ids)
    (hs : s.WellFormed) (hst : s.Indexes t) : t.NotedAll u ids where
  stored id hid d hd hfun := by
    obtain ⟨v, hv, hvfun⟩ := h.stored id hid d hd hfun
    exact ⟨v, hst.index _ v hv, hst.arena.isFunction hvfun⟩
  noted id hid d hd hglobal := (h.noted id hid d hd hglobal).indexes hs hst

/-- Every function among the declarators is noted; a later one does not undo that. -/
theorem indexAll_meets (u : TranslationUnit) (ids : List DeclId) (hs : s.WellFormed) :
    Meets .indexes (indexAll u ids) s fun _ t =>
      t.NotedAll u ids ∧ (s.Complete → t.Complete) := by
  induction ids generalizing s with
  | nil =>
    refine Meets.pure ⟨⟨?_, ?_⟩, id⟩ <;> exact fun id hid => absurd hid List.not_mem_nil
  | cons id rest ih =>
    refine Meets.bind (giveVariables_meets u id hs).frame fun made t _ hgives =>
      Meets.bind_lift fun d hd => ?_
    obtain ⟨hst, hgiven, hcomplete⟩ := hgives
    have ht := hst.wellFormed hs
    have hrest : ∀ w, t.Indexes w → t.AddsPointers w →
        (d.isGlobalFunction → w.Noted d.anchor d.name) →
        Meets .indexes (do
          let others ← indexAll u rest
          return if made then id :: others else others) w fun _ z =>
            z.NotedAll u (id :: rest) ∧ (s.Complete → z.Complete) := by
      intro w htw hadds hnoted
      have hw := htw.wellFormed ht
      refine Meets.bind (ih hw).frame fun _ z _ hothers => Meets.pure ?_
      obtain ⟨hwz, hall, hkept⟩ := hothers
      have htz := htw.trans hwz
      refine ⟨⟨?_, ?_⟩, fun hc => hkept (hadds.complete ht htw.toExtends (hcomplete hc))⟩
      · intro id' hid' d' hd' hfun
        rcases List.mem_cons.1 hid' with rfl | hid'
        · obtain ⟨v, hv, hvfun⟩ := hgiven d' hd' hfun
          exact ⟨v, htz.index _ v hv, htz.arena.isFunction hvfun⟩
        · exact hall.stored id' hid' d' hd' hfun
      · intro id' hid' d' hd' hglobal
        rcases List.mem_cons.1 hid' with rfl | hid'
        · obtain rfl : d' = d := Except.ok.inj (hd'.symm.trans hd)
          exact (hnoted hglobal).indexes hw hwz
        · exact hall.noted id' hid' d' hd' hglobal
    dsimp only
    split
    · refine Meets.bind (noteFunction_meets u id t).frame fun _ w _ hnoted => ?_
      obtain ⟨htw, hadds, hnote⟩ := hnoted
      refine hrest w htw hadds fun hglobal => ⟨?_, hnote d hd hglobal⟩
      obtain ⟨v, hv, hfun⟩ := hgiven d hd (Decl.isFunction_of_isGlobalFunction hglobal)
      exact ⟨v, htw.index _ v hv, htw.arena.isFunction hfun⟩
    · next hno =>
      refine hrest t (.refl t) (fun _ _ => .inl) fun hglobal => absurd ?_ hno
      exact Decl.isFunction_of_isGlobalFunction hglobal

/-! ## Units -/

theorem enter_meets (u : TranslationUnit) (s : Session) :
    Meets .follows (enter u) s fun _ t =>
      t = { s with opened := some ⟨u.id, u.file, [], .empty, .empty⟩ } := by
  refine Meets.bind_get ?_
  split
  · exact Meets.fault
  · refine Meets.modify ⟨.of_tables rfl rfl rfl rfl fun hs => ?_, rfl, rfl, fun _ _ => id,
      fun _ _ => id⟩ rfl
    refine { hs with literals := ?_, unknownCallees := ?_ }
    · rintro o ⟨⟩ e he
      cases he
    · rintro o ⟨⟩ e he
      cases he

/-- Leaving a unit forgets what was made for it and nothing else. -/
theorem exit_meets (s : Session) :
    Meets .follows exit s fun _ t => t = { s with opened := none } := by
  refine Meets.bind_get ?_
  split
  · refine Meets.modify ⟨.of_tables rfl rfl rfl rfl fun hs => ?_, rfl, rfl, fun _ _ => id,
      fun _ _ => id⟩ rfl
    exact { hs with literals := fun o ho => (nomatch ho), unknownCallees := fun o ho => nomatch ho }
  · exact Meets.fault

/-- A unit that is indexed has all its functions noted. -/
theorem indexUnit_meets (u : TranslationUnit) (hs : s.WellFormed) :
    Meets .indexes (indexUnit u) s fun _ t =>
      (∀ ids, u.declarators = .ok ids → t.NotedAll u ids) ∧ (s.Complete → t.Complete) := by
  refine Meets.bind (enter_meets u s).frame.to_indexes fun _ t _ hentered => ?_
  have hst := hentered.1
  have ht := hst.wellFormed hs
  refine Meets.bind_lift fun ids hids => Meets.bind (indexAll_meets u ids ht).frame
    fun _ w _ hindexed => ?_
  obtain ⟨htw, hall, hcomplete⟩ := hindexed
  have hw := htw.wellFormed ht
  refine Meets.bind (exit_meets w).frame.to_indexes fun _ z _ hleft => Meets.pure ?_
  have hwz := hleft.1
  constructor
  · intro ids' hids'
    rw [Except.ok.inj (hids'.symm.trans hids)]
    exact hall.indexes hw hwz.indexes
  · intro hc
    have hcw := hcomplete (hst.addsPointers.complete hs hst.toExtends hc)
    exact hwz.addsPointers.complete hw hwz.toExtends hcw

/-- A global function declaration that some unit makes, at file scope or inside a body. -/
def IsGlobal (units : List TranslationUnit) (d : Decl) : Prop :=
  ∃ u ∈ units, ∃ ids, u.declarators = .ok ids ∧ ∃ id ∈ ids, u.decl id = .ok d ∧ d.isGlobalFunction

/-- Once all units are indexed, the declarations of each are noted, and every function with a body
is registered. -/
theorem indexUnits_meets (units : List TranslationUnit) (hs : s.WellFormed) :
    Meets .indexes (units.forM fun u => discard (indexUnit u)) s fun _ t =>
      (∀ u ∈ units, ∀ ids, u.declarators = .ok ids → t.NotedAll u ids) ∧
        (s.Complete → t.Complete) := by
  induction units generalizing s with
  | nil => exact Meets.pure ⟨fun u hu => absurd hu List.not_mem_nil, id⟩
  | cons u rest ih =>
    have hunit : Meets .indexes (discard (indexUnit u)) s fun _ t =>
        (∀ ids, u.declarators = .ok ids → t.NotedAll u ids) ∧ (s.Complete → t.Complete) :=
      Meets.discard (indexUnit_meets u hs)
    change Meets .indexes
      (discard (indexUnit u) >>= fun _ => rest.forM fun u => discard (indexUnit u)) s _
    refine Meets.bind hunit.frame fun _ t _ hfirst => ?_
    obtain ⟨hst, hall, hcomplete⟩ := hfirst
    have ht := hst.wellFormed hs
    refine (ih ht).mono fun _ w htw hothers => ⟨fun u' hu' ids hids => ?_, fun hc => ?_⟩
    · rcases List.mem_cons.1 hu' with rfl | hu'
      · exact (hall ids hids).indexes ht htw
      · exact hothers.1 u' hu' ids hids
    · exact hothers.2 (hcomplete hc)

end Session

end CheckedPointers
