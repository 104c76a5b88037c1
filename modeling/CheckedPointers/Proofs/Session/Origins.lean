import CheckedPointers.Proofs.Session.Indexing
import CheckedPointers.Proofs.Session.Staying

/-!
Where the function variables of an indexed program come from. Each was made for the first function
declaration at its anchor, and the pairing tables say of it what that declaration says.
-/
namespace CheckedPointers

open Op

namespace Pairing

/-- What is noted of the variable of a declaration: that it is a definition, with the key of the
prototype if there is one, or that it is a declaration. -/
def record (r : Pairing) (d : Decl) (v : VarId) (prototype : Option FunctionKey) : Pairing :=
  if d.hasBody then
    match prototype with
    | some key => (r.define d.key v).pair d.key key
    | none => r.define d.key v
  else r.declare d.key v

variable {r : Pairing} {d : Decl} {v w : VarId} {prototype : Option FunctionKey}
  {key : FunctionKey}

/-- A table of sets changes at one key, and gains one member there. -/
theorem mem_addTo {e : FunctionKey × VarSet} {l : List (FunctionKey × VarSet)}
    (he : e ∈ addTo key v l) (hw : w ∈ e.2) :
    (w = v ∧ e.1 = key) ∨ ∃ e' ∈ l, e'.1 = e.1 ∧ w ∈ e'.2 := by
  induction l with
  | nil =>
    obtain rfl := List.mem_singleton.1 he
    exact .inl ⟨(VarSet.mem_singleton v w).1 hw, rfl⟩
  | cons x rest ih =>
    obtain ⟨k, set⟩ := x
    rw [addTo] at he
    split at he
    · next hk =>
      rcases List.mem_cons.1 he with rfl | he
      · rcases (VarSet.mem_insert set v w).1 hw with rfl | hw
        · exact .inl ⟨rfl, hk.symm⟩
        · exact .inr ⟨_, List.mem_cons_self, rfl, hw⟩
      · exact .inr ⟨e, List.mem_cons_of_mem _ he, rfl, hw⟩
    · rcases List.mem_cons.1 he with rfl | he
      · exact .inr ⟨_, List.mem_cons_self, rfl, hw⟩
      · rcases ih he with h | ⟨e', he', h⟩
        · exact .inl h
        · exact .inr ⟨e', List.mem_cons_of_mem _ he', h⟩

/-- A definition under a key was one before, or is the one recorded. -/
theorem mem_definitions_record {e : FunctionKey × VarSet}
    (he : e ∈ (r.record d v prototype).definitions) (hw : w ∈ e.2) :
    (w = v ∧ d.hasBody ∧ e.1 = d.key) ∨ ∃ e' ∈ r.definitions, e'.1 = e.1 ∧ w ∈ e'.2 := by
  unfold record at he
  split at he
  · next hbody =>
    have he : e ∈ addTo d.key v r.definitions := by
      split at he <;> exact he
    exact (mem_addTo he hw).imp_left fun h => ⟨h.1, hbody, h.2⟩
  · exact .inr ⟨e, he, rfl, hw⟩

def declaredUnder (r : Pairing) (key : FunctionKey) : VarSet := (r.declared? key).getD .empty

/-- A declaration is added under one key. -/
theorem mem_declaredUnder_declare {key' : FunctionKey} :
    w ∈ (r.declare key' v).declaredUnder key ↔
      w ∈ r.declaredUnder key ∨ key = key' ∧ w = v := by
  simp only [declaredUnder, declared?, declare, OrderedMap.find?_insert]
  split
  · next hkey =>
    subst hkey
    simp [or_comm]
  · next hkey => simp [hkey]

theorem mem_declaredUnder_record :
    w ∈ (r.record d v prototype).declaredUnder key ↔
      w ∈ r.declaredUnder key ∨ ¬ d.hasBody ∧ key = d.key ∧ w = v := by
  unfold record
  split
  · next hbody => split <;> simp [hbody, declaredUnder, declared?, pair, define]
  · next hbody => rw [mem_declaredUnder_declare]; simp [hbody]

/-- A definition is linked with the prototype of its unit; other links stay. -/
theorem pairedKey?_record :
    (r.record d v prototype).pairedKey? key =
      if d.hasBody ∧ key = d.key ∧ prototype.isSome then prototype else r.pairedKey? key := by
  unfold record
  split
  · next hbody =>
    cases prototype with
    | none => simp [define, pairedKey?]
    | some k => simp [pair, define, pairedKey?, OrderedMap.find?_insert, hbody]
  · next hbody => simp [hbody, declare, pairedKey?]

end Pairing

namespace Frame

def any : Frame := ⟨fun _ _ => True, fun _ => trivial, fun _ _ => trivial⟩

/-- Only atoms, constraints, variables and what stands at anchors change. -/
def places : Frame where
  rel s t := t = { s with solver := t.solver, arena := t.arena, index := t.index }
  refl _ := rfl
  trans h h' := by rw [h', h]

def supplies : Frame where
  rel s t := t =
    { s with solver := t.solver, arena := t.arena, index := t.index, pairing := t.pairing }
  refl _ := rfl
  trans h h' := by rw [h', h]

end Frame

namespace Session

variable {s t w : Session} {u : TranslationUnit} {α : Type} {x : Op α}

theorem Records.places (h : s.Records t) : Frame.places.rel s t := by
  show t = _
  rw [h.only]

theorem places_admits : Frame.places.AdmitsPlacing where
  creates _ _ _ := rfl
  stores _ _ := rfl

/-! ## One function variable -/

/-- A function variable and the declaration that it is made for. -/
structure Making where
  var : VarId
  unit : TranslationUnit
  id : DeclId
  decl : Decl

/-- The unit has a declaration of the function that is no definition, under this key. -/
def Making.HasPrototype (m : Making) (key : FunctionKey) : Prop :=
  ∃ p, m.unit.prototypeOf m.id = .ok (some p) ∧ m.unit.keyOf p = .ok key

def Recorded (s : Session) (m : Making) (t : Session) : Prop :=
  ∃ prototype, (m.decl.hasBody → ∀ key, m.HasPrototype key ↔ prototype = some key) ∧
    t.pairing = s.pairing.record m.decl m.var prototype

/-- Recording puts a function into the tables where its declaration says. -/
theorem recordFunction_records {func : DeclId} {d : Decl} (hd : u.decl func = .ok d) (v : VarId)
    (s : Session) :
    Meets .supplies (recordFunction u func v) s fun _ t => s.Recorded ⟨v, u, func, d⟩ t := by
  have hstore : ∀ w : Session, Meets .supplies (do
      let slots := (((← get).arena.function? v).map FunctionVariable.params).getD []
      storeSlots u (d.params.zip slots)) w fun _ t => t.pairing = w.pairing := fun w => by
    have hplaces := Meets.bind_get (f := fun s' : Session => storeSlots u (d.params.zip
      ((s'.arena.function? v).map FunctionVariable.params |>.getD []))) (storeSlots_stays places_admits _ w)
    refine (Meets.frame hplaces).mono (fun _ t _ h => ?_) |>.widen fun t ht => ?_
    · rw [h.1]
    · show t = _
      rw [ht]
  rw [recordFunction, hd, lift_ok_bind]
  dsimp only
  split
  · next hbody =>
    refine Meets.bind (P := fun _ t => t = { s with pairing := s.pairing.define d.key v })
      (Meets.modify rfl rfl) fun _ w _ hw => Meets.bind_lift fun prototype hprototype => ?_
    split
    · next p =>
      refine Meets.bind_lift fun key hkey => Meets.bind
        (P := fun _ t => t = { w with pairing := w.pairing.pair d.key key })
        (Meets.modify rfl rfl) fun _ z _ hz => (hstore z).mono fun _ t _ ht => ?_
      refine ⟨some key, fun _ key' => ?_, ?_⟩
      · constructor
        · rintro ⟨p', hp', hkey'⟩
          obtain rfl := Option.some.inj (Except.ok.inj (hprototype.symm.trans hp'))
          rw [Except.ok.inj (hkey.symm.trans hkey')]
        · rintro ⟨⟩
          exact ⟨p, hprototype, hkey⟩
      · rw [ht, hz, hw]
        simp [Pairing.record, hbody]
    · refine (hstore w).mono fun _ t _ ht => ⟨none, fun _ key => ?_, ?_⟩
      · constructor
        · rintro ⟨p', hp', -⟩
          cases hprototype.symm.trans hp'
        · intro h
          cases h
      · rw [ht, hw]
        simp [Pairing.record, hbody]
  · next hbody =>
    refine Meets.bind (P := fun _ t => t = { s with pairing := s.pairing.declare d.key v })
      (Meets.modify rfl rfl) fun _ w _ hw => (hstore w).mono fun _ t _ ht => ?_
    refine ⟨none, fun h => absurd h hbody, ?_⟩
    rw [ht, hw]
    simp [Pairing.record, hbody]

/-- A function variable is made for a declaration at whose anchor none stood, and no other function
is stored. -/
structure Makes (s : Session) (m : Making) (t : Session) : Prop where
  decl : m.unit.decl m.id = .ok m.decl
  isFunction : m.decl.isFunction
  free : ∀ w ∈ s.storedAt m.decl.anchor, ¬ s.arena.isFunction w
  var : ∃ f, t.arena.function? m.var = some f ∧ f.name = m.decl.name ∧ f.hasBody = m.decl.hasBody
  place : m.var ∈ t.storedAt m.decl.anchor
  only : ∀ anchor, ∀ w ∈ t.storedAt anchor, t.arena.isFunction w →
    w ∈ s.storedAt anchor ∨ anchor = m.decl.anchor ∧ w = m.var
  recorded : s.Recorded m t

/-- Pointers may be added afterwards. -/
theorem Makes.adds {m : Making} (h : s.Makes m t) (ht : t.WellFormed) (htw : t.Indexes w)
    (hadds : t.AddsPointers w) (hpairing : w.pairing = t.pairing) : s.Makes m w where
  decl := h.decl
  isFunction := h.isFunction
  free := h.free
  var := by
    obtain ⟨f, hf, hname, hbody⟩ := h.var
    exact ⟨f, htw.arena.function? hf, hname, hbody⟩
  place := htw.index _ _ h.place
  only anchor x hx hfun := by
    rcases hadds anchor x hx with hold | hptr
    · exact h.only anchor x hold (htw.arena.isFunction_eq (ht.stored_lt hold) ▸ hfun)
    · exact absurd hfun (Arena.not_isFunction hptr)
  recorded := by
    obtain ⟨prototype, hp, ht⟩ := h.recorded
    exact ⟨prototype, hp, hpairing.trans ht⟩

/-- A function variable is made only if none stands at the anchor, and then for this declaration. -/
theorem giveFunction_makes {func : DeclId} {d : Decl} (hd : u.decl func = .ok d) (ty : CType)
    (hs : s.WellFormed) :
    Meets .supplies (giveFunction u func d ty) s fun _ t =>
      t = s ∨ ∃ v, s.Makes ⟨v, u, func, d⟩ t := by
  refine Meets.bind_get ?_
  split
  · next hnone =>
    simp only [Bool.and_eq_true, Bool.not_eq_true', List.any_eq_false] at hnone
    refine Meets.bind ((newFunction_meets u func s).frame.widen fun t (hst : s.Creates t) => ?_)
      fun v t _ ⟨hst, d', f, hd', hisfun, hf, hname, hbody⟩ => ?_
    · show t = _
      rw [hst.only]
    obtain rfl := Except.ok.inj (hd'.symm.trans hd)
    have hv : t.arena.isFunction v := Arena.isFunction_iff.2 ⟨f, hf⟩
    have hstore : Meets .supplies (store d'.anchor (.singleton v)) t fun _ w =>
        w.pairing = t.pairing := Meets.modify rfl rfl
    have hplace := store_new_meets hst hs (Arena.lt_of_isFunction hv) fun _ => hnone.2
    refine Meets.bind (hstore.both hplace.frame) fun _ w _ hstored => ?_
    obtain ⟨hpairing, -, htw, harena, hmem⟩ := hstored
    have hw := htw.wellFormed (hst.wellFormed hs)
    have hfun : w.arena.isFunction v := harena ▸ hv
    refine Meets.bind ((recordFunction_records hd' v w).both
      (recordFunction_meets u func hw hfun).frame) fun _ z _ hrecorded => Meets.pure (.inr ⟨v, ?_⟩)
    obtain ⟨⟨prototype, hp, hz⟩, -, hwz, hadds, -⟩ := hrecorded
    refine ⟨hd', hisfun, hnone.2, ⟨f, ?_, hname, hbody⟩,
      hwz.index _ v ((hmem _ v).2 (.inr ⟨rfl, rfl⟩)),
      fun anchor x hx hxfun => ?_, prototype, hp, ?_⟩
    · rw [hwz.arena.function?_eq (Arena.lt_of_isFunction hfun), harena, hf]
    · rcases hadds anchor x hx with hx | hptr
      · exact (hmem anchor x).1 hx
      · exact absurd hxfun (Arena.not_isFunction hptr)
    · rw [hz, hpairing, hst.only]
  · exact Meets.pure (.inl rfl)

def Gave (u : TranslationUnit) (id : DeclId) (s t : Session) : Prop :=
  (s.AddsPointers t ∧ t.pairing = s.pairing) ∨ ∃ v d, s.Makes ⟨v, u, id, d⟩ t

/-- A declarator that is no function makes none, and a function makes one at most. -/
theorem giveVariables_gave (u : TranslationUnit) (id : DeclId) (hs : s.WellFormed) :
    Meets .supplies (giveVariables u id) s fun _ t => Gave u id s t := by
  refine Meets.bind_requireOpen fun _ _ => Meets.bind_lift fun d hd => ?_
  have hwiden : ∀ {s t : Session}, Frame.places.rel s t → Frame.supplies.rel s t := fun h => by
    show _ = _
    rw [h]
  split
  · next ty _ hty =>
    refine Meets.bind ((giveFunction_makes hd ty hs).both (giveFunction_meets u id d ty hs).frame)
      fun _ t _ ⟨hmade, _, hst, _⟩ => ?_
    have ht := hst.wellFormed hs
    refine Meets.bind (((givePointer_stays places_admits d ty t).frame.widen fun _ => hwiden).both
      (givePointer_meets d ty ht).frame) fun _ w _ ⟨⟨hplaces, _⟩, _, htw, hadds⟩ => ?_
    have hgave : ∀ z, w.Records z → Gave u id s z := by
      intro z hwz
      have hindexes := htw.trans hwz.creates.visits.toFollows.indexes
      have hadded : t.AddsPointers z := fun anchor x hx => by
        rw [storedAt, hwz.only] at hx
        exact (hadds anchor x hx).imp_right fun h => hwz.arena ▸ h
      have hpairing : z.pairing = t.pairing := by rw [hwz.only, hplaces]
      rcases hmade with rfl | ⟨v, hmakes⟩
      · exact .inl ⟨hadded, hpairing⟩
      · exact .inr ⟨v, d, hmakes.adds ht hindexes hadded hpairing⟩
    dsimp only
    split
    · refine Meets.bind_get ?_
      split
      · next set _ =>
        have hbound : Meets .records (discard (boundSet set .leastSafe)) w fun _ _ => True :=
          Meets.discard (boundSet_meets set _ w).any
        refine Meets.bind (hbound.frame.widen fun z hwz => hwiden hwz.places)
          fun _ z _ hz => Meets.pure (hgave z hz.1)
      · exact Meets.pure (hgave w (.refl w))
    · exact Meets.pure (hgave w (.refl w))
  · exact Meets.pure (.inl ⟨fun _ _ => .inl, rfl⟩)

/-! ## Global names -/

def noted (s : Session) (d : Decl) : Session :=
  let functions := (s.storedAt d.anchor).members.filter s.arena.isFunction
  { s with
    externs := s.externs.insert d.name ((s.externs.find? d.name).getD false || d.hasBody)
    globals :=
      if !functions.isEmpty then s.globals.insert d.name ((s.variants d.name).insertAll functions)
      else s.globals }

/-- Noting changes the tables of names for a global function and nothing otherwise. -/
theorem noteFunction_noted (u : TranslationUnit) (func : DeclId) (s : Session) :
    Meets .any (noteFunction u func) s fun _ t =>
      ∃ d, u.decl func = .ok d ∧ t = if d.isGlobalFunction then s.noted d else s := by
  refine Meets.bind_requireOpen fun _ _ => Meets.bind_lift fun d hd => ?_
  split
  · next hglobal =>
    have hdone : ∀ t, t = s.noted d → ∃ d', u.decl func = .ok d' ∧
        t = if d'.isGlobalFunction then s.noted d' else s := fun t ht =>
      ⟨d, hd, by rw [if_pos hglobal, ht]⟩
    let externs := s.externs.insert d.name ((s.externs.find? d.name).getD false || d.hasBody)
    refine Meets.bind (P := fun _ t => t = { s with externs := externs })
      (Meets.modify trivial rfl) fun _ t _ ht => Meets.bind_get ?_
    subst ht
    dsimp only
    split
    · next hsome =>
      have hsome : (!((s.storedAt d.anchor).members.filter s.arena.isFunction).isEmpty) = true :=
        hsome
      refine Meets.modify trivial (hdone _ ?_)
      simp only [noted, if_pos hsome]
      rfl
    · next hnone =>
      have hnone : ¬ (!((s.storedAt d.anchor).members.filter s.arena.isFunction).isEmpty) = true :=
        hnone
      refine Meets.pure (hdone _ ?_)
      simp only [noted, if_neg hnone, externs]
  · next hlocal => exact Meets.pure ⟨d, hd, by rw [if_neg hlocal]⟩

/-- The functions at the anchor become variants of the name, and no other variants change. -/
theorem mem_variants_noted {d : Decl} {name : String} {v : VarId} :
    v ∈ (s.noted d).variants name ↔ v ∈ s.variants name ∨
      name = d.name ∧ v ∈ s.storedAt d.anchor ∧ s.arena.isFunction v := by
  have hmem : v ∈ (s.storedAt d.anchor).members.filter s.arena.isFunction ↔
      v ∈ s.storedAt d.anchor ∧ s.arena.isFunction v := List.mem_filter
  by_cases hnone : ((s.storedAt d.anchor).members.filter s.arena.isFunction).isEmpty
  · have hno : ¬ (v ∈ s.storedAt d.anchor ∧ s.arena.isFunction v) := by
      rw [← hmem, List.isEmpty_iff.1 hnone]
      exact List.not_mem_nil
    simp [noted, variants, hnone, hno]
  · have hglobals : (s.noted d).globals = s.globals.insert d.name ((s.variants d.name).insertAll
        ((s.storedAt d.anchor).members.filter s.arena.isFunction)) := by
      simp [noted, hnone]
    rw [variants, hglobals, OrderedMap.find?_insert]
    split
    · next hname =>
      subst hname
      rw [Option.getD_some, VarSet.mem_insertAll, hmem]
      simp [or_comm]
    · next hname => simp [hname, variants]

/-! ## All function variables -/

/-- How the function variables of a session came about: each of them was `made` for one of the
declarations at the `sites`, which was the first one at its anchor, and stands in the tables where
that declaration puts it. -/
structure Origins (sites : TranslationUnit → DeclId → Decl → Prop) (made : Making → Prop)
    (s : Session) : Prop where
  site : ∀ m, made m → sites m.unit m.id m.decl
  isFunction : ∀ m, made m → m.decl.isFunction
  var : ∀ m, made m → ∃ f, s.arena.function? m.var = some f ∧ f.name = m.decl.name ∧
    f.hasBody = m.decl.hasBody
  place : ∀ m, made m → m.var ∈ s.storedAt m.decl.anchor
  only : ∀ anchor, ∀ v ∈ s.storedAt anchor, s.arena.isFunction v →
    ∃ m, made m ∧ m.var = v ∧ m.decl.anchor = anchor
  once : ∀ m m', made m → made m' → m.decl.anchor = m'.decl.anchor → m = m'
  definitions : ∀ e ∈ s.pairing.definitions, ∀ v ∈ e.2,
    ∃ m, made m ∧ m.var = v ∧ m.decl.hasBody ∧ m.decl.key = e.1
  declarations : ∀ key w, w ∈ s.pairing.declaredUnder key ↔
    ∃ m, made m ∧ m.var = w ∧ ¬ m.decl.hasBody ∧ m.decl.key = key
  pairs : ∀ key key', s.pairing.pairedKey? key = some key' →
    ∃ m, made m ∧ m.decl.hasBody ∧ m.decl.key = key ∧ m.HasPrototype key'
  paired : ∀ m key, made m → m.decl.hasBody → m.HasPrototype key →
    (s.pairing.pairedKey? m.decl.key).isSome
  variants : ∀ name, ∀ v ∈ s.variants name,
    ∃ u id d, sites u id d ∧ d.isGlobalFunction ∧ d.name = name ∧ v ∈ s.storedAt d.anchor

namespace Origins

variable {sites : TranslationUnit → DeclId → Decl → Prop} {made : Making → Prop}
  {options : Options}

theorem new : Origins sites (fun _ => False) (new options) where
  site _ h := h.elim
  isFunction _ h := h.elim
  var _ h := h.elim
  place _ h := h.elim
  only anchor v hv := absurd hv (VarSet.not_mem_empty v)
  once _ _ h := h.elim
  definitions _ he := absurd he List.not_mem_nil
  declarations key w := by
    simp [Session.new, Pairing.empty, Pairing.declaredUnder, Pairing.declared?]
  pairs key key' h := by cases h
  paired _ _ h := h.elim
  variants name v hv := absurd hv (VarSet.not_mem_empty v)

/-- Pointers may be added. -/
theorem adds (h : Origins sites made s) (hs : s.WellFormed) (hst : s.Indexes t)
    (hadds : s.AddsPointers t) (hpairing : t.pairing = s.pairing)
    (hglobals : t.globals = s.globals) : Origins sites made t where
  site := h.site
  isFunction := h.isFunction
  var m hm := by
    obtain ⟨f, hf, hrest⟩ := h.var m hm
    exact ⟨f, hst.arena.function? hf, hrest⟩
  place m hm := hst.index _ _ (h.place m hm)
  only anchor v hv hfun := by
    rcases hadds anchor v hv with hold | hptr
    · exact h.only anchor v hold (hst.arena.isFunction_eq (hs.stored_lt hold) ▸ hfun)
    · exact absurd hfun (Arena.not_isFunction hptr)
  once := h.once
  definitions := hpairing ▸ h.definitions
  declarations := hpairing ▸ h.declarations
  pairs := hpairing ▸ h.pairs
  paired := hpairing ▸ h.paired
  variants name v hv := by
    rw [Session.variants, hglobals] at hv
    obtain ⟨u, id, d, hd, hglobal, hname, hplace⟩ := h.variants name v hv
    exact ⟨u, id, d, hd, hglobal, hname, hst.index _ v hplace⟩

/-- One more function variable. -/
theorem makes {m : Making} (h : Origins sites made s) (hs : s.WellFormed) (hst : s.Indexes t)
    (hmakes : s.Makes m t) (hglobals : t.globals = s.globals)
    (hsite : sites m.unit m.id m.decl) : Origins sites (fun x => made x ∨ x = m) t where
  site := by
    rintro x (hx | rfl)
    · exact h.site x hx
    · exact hsite
  isFunction := by
    rintro x (hx | rfl)
    · exact h.isFunction x hx
    · exact hmakes.isFunction
  var := by
    rintro x (hx | rfl)
    · obtain ⟨f, hf, hrest⟩ := h.var x hx
      exact ⟨f, hst.arena.function? hf, hrest⟩
    · exact hmakes.var
  place := by
    rintro x (hx | rfl)
    · exact hst.index _ _ (h.place x hx)
    · exact hmakes.place
  only anchor v hv hfun := by
    rcases hmakes.only anchor v hv hfun with hold | ⟨rfl, rfl⟩
    · obtain ⟨x, hx, hvar⟩ :=
        h.only anchor v hold (hst.arena.isFunction_eq (hs.stored_lt hold) ▸ hfun)
      exact ⟨x, .inl hx, hvar⟩
    · exact ⟨m, .inr rfl, rfl, rfl⟩
  once := by
    -- no function stood at the anchor of the new one
    have hnew : ∀ x, made x → x.decl.anchor ≠ m.decl.anchor := fun x hx he => by
      obtain ⟨f, hf, -⟩ := h.var x hx
      exact hmakes.free x.var (he ▸ h.place x hx) (Arena.isFunction_iff.2 ⟨f, hf⟩)
    rintro x y (hx | rfl) (hy | rfl) he
    · exact h.once x y hx hy he
    · exact absurd he (hnew x hx)
    · exact absurd he.symm (hnew y hy)
    · rfl
  definitions e he v hv := by
    obtain ⟨prototype, -, hpairing⟩ := hmakes.recorded
    rw [hpairing] at he
    rcases Pairing.mem_definitions_record he hv with ⟨rfl, hbody, hkey⟩ | ⟨e', he', hkey, hv⟩
    · exact ⟨m, .inr rfl, rfl, hbody, hkey.symm⟩
    · obtain ⟨x, hx, hvar, hbody, hxkey⟩ := h.definitions e' he' v hv
      exact ⟨x, .inl hx, hvar, hbody, hxkey.trans hkey⟩
  declarations key w := by
    obtain ⟨prototype, -, hpairing⟩ := hmakes.recorded
    rw [hpairing, Pairing.mem_declaredUnder_record, h.declarations]
    constructor
    · rintro (⟨x, hx, hrest⟩ | ⟨hbody, rfl, rfl⟩)
      · exact ⟨x, .inl hx, hrest⟩
      · exact ⟨m, .inr rfl, rfl, hbody, rfl⟩
    · rintro ⟨x, hx | rfl, hvar, hbody, hkey⟩
      · exact .inl ⟨x, hx, hvar, hbody, hkey⟩
      · exact .inr ⟨hbody, hkey.symm, hvar.symm⟩
  pairs key key' hkey := by
    obtain ⟨prototype, hp, hpairing⟩ := hmakes.recorded
    rw [hpairing, Pairing.pairedKey?_record] at hkey
    split at hkey
    · next hm => exact ⟨m, .inr rfl, hm.1, hm.2.1.symm, (hp hm.1 key').2 hkey⟩
    · obtain ⟨x, hx, hrest⟩ := h.pairs key key' hkey
      exact ⟨x, .inl hx, hrest⟩
  paired x key hx hbody hprototype := by
    obtain ⟨prototype, hp, hpairing⟩ := hmakes.recorded
    rw [hpairing, Pairing.pairedKey?_record]
    split
    · next hm => exact hm.2.2
    · next hm =>
      rcases hx with hx | rfl
      · exact h.paired x key hx hbody hprototype
      · exact absurd ⟨hbody, rfl, by rw [(hp hbody key).1 hprototype]; rfl⟩ hm
  variants name v hv := by
    rw [Session.variants, hglobals] at hv
    obtain ⟨u, id, d, hd, hglobal, hname, hplace⟩ := h.variants name v hv
    exact ⟨u, id, d, hd, hglobal, hname, hst.index _ v hplace⟩

/-- A global function is noted. -/
theorem noted {u : TranslationUnit} {id : DeclId} {d : Decl} (h : Origins sites made s)
    (hsite : sites u id d) (hglobal : d.isGlobalFunction) : Origins sites made (s.noted d) where
  __ := h
  variants name v hv := by
    rcases mem_variants_noted.1 hv with hv | ⟨rfl, hv, -⟩
    · exact h.variants name v hv
    · exact ⟨u, id, d, hsite, hglobal, rfl, hv⟩

end Origins

end Session

end CheckedPointers
