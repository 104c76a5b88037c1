import CheckedPointers.Proofs.Session.Origins
import CheckedPointers.Session.Repair

/-!
Signatures made on demand. Following units makes one for a function that its unit has no prototype
for, under the key of a definition; apart from these the tables of an indexed program stay as they
are.
-/
namespace CheckedPointers

open Op TranslationUnit

namespace TranslationUnit

variable {u : TranslationUnit} {id : DeclId} {p : Decl → Bool} {d : Decl} {key : FunctionKey}

/-- The search finds whatever passes the test. -/
theorem findFunction?_ne_none (hd : u.decl id = .ok d) (hfun : d.isFunction) (hp : p d) :
    u.findFunction? d.name p ≠ none := by
  intro h
  have hmem := Array.mem_of_getElem? (decl_eq_ok.1 hd)
  have hno := Array.findIdx?_eq_none_iff.1 h d hmem
  simp [hfun, hp] at hno

/-- A function without a prototype in its unit has a key of a definition. -/
theorem key_of_definition (hfun : u.IsFunction id) (hnone : u.prototypeOf id = .ok none)
    (hkey : u.pairingKey id = .ok key) :
    ∃ id' d', u.decl id' = .ok d' ∧ d'.isFunction ∧ d'.hasBody ∧ d'.key = key := by
  obtain ⟨d, hd, hfun⟩ := hfun
  have hbody : d.hasBody := by
    by_contra hno
    rw [prototypeOf, hd] at hnone
    exact findFunction?_ne_none hd hfun (by simpa using hno) (Except.ok.inj hnone)
  have hdefinition : u.definitionFor id = .ok (u.findFunction? d.name Decl.hasBody) := by
    rw [definitionFor, hd]
    rfl
  rw [pairingKey, hdefinition] at hkey
  change u.keyOf ((u.findFunction? d.name Decl.hasBody).getD id) = .ok key at hkey
  cases hfound : u.findFunction? d.name Decl.hasBody with
  | none => exact absurd hfound (findFunction?_ne_none hd hfun hbody)
  | some i =>
    obtain ⟨d', hd', hfun', -, hbody'⟩ := findFunction?_spec hfound
    rw [hfound, Option.getD_some] at hkey
    exact ⟨i, d', hd', hfun', hbody', (keyOf_eq_ok hd').1 hkey⟩

end TranslationUnit

namespace Session

variable {s t w : Session} {u : TranslationUnit} {units : List TranslationUnit}

def implicitsUnder (s : Session) (key : FunctionKey) : VarSet :=
  (s.implicits.find? key).getD .empty

/-- What repair takes for a declaration is recorded under the key of the prototype, or else was
made on demand under the key of the definition or is a bodiless variant of its name. -/
theorem of_mem_declarationsPaired {key : FunctionKey} {v x : VarId}
    (h : x ∈ s.declarationsPaired key v) :
    (∃ key', s.pairing.pairedKey? key = some key' ∧ x ∈ s.pairing.declaredUnder key') ∨
    (∀ key', s.pairing.pairedKey? key = some key' → ∀ y, y ∉ s.pairing.declaredUnder key') ∧
      (x ∈ s.implicitsUnder key ∨
        ∀ f, s.arena.function? v = some f → x ∈ s.variants f.name ∧
          ∃ g, s.arena.function? x = some g ∧ ¬ g.hasBody) := by
  unfold declarationsPaired at h
  cases hpaired : s.pairing.paired? key with
  | some set =>
    obtain ⟨key', hkey', hset⟩ := Option.bind_eq_some_iff.1 hpaired
    rw [hpaired] at h
    exact .inl ⟨key', hkey', by rwa [Pairing.declaredUnder, hset]⟩
  | none =>
    rw [hpaired] at h
    refine .inr ⟨fun key' hkey' y hy => ?_, ?_⟩
    · rw [Pairing.paired?, hkey'] at hpaired
      have hnone : s.pairing.declared? key' = none := hpaired
      rw [Pairing.declaredUnder, hnone] at hy
      exact VarSet.not_mem_empty y hy
    · rcases List.mem_append.1 h with h | h
      · refine .inr fun f hf => ?_
        obtain ⟨hx, hbodiless⟩ := List.mem_filter.1 h
        rw [Arena.getElem?_of_function? hf] at hx
        obtain ⟨g, hg, hbody⟩ := (Option.any_eq_true _ _).1 hbodiless
        exact ⟨hx, g, hg, by simpa using hbody⟩
      · exact .inl h

/-- Signatures are made on demand, under keys of definitions. They count as declared under their
keys; nothing else is registered. -/
structure Demands (units : List TranslationUnit) (s t : Session) : Prop where
  externs : t.externs = s.externs
  definitions : t.pairing.definitions = s.pairing.definitions
  pairs : t.pairing.pairs = s.pairing.pairs
  implicits : ∀ key set, s.implicits.find? key = some set → t.implicits.find? key = some set
  declared : ∀ key w, w ∈ s.pairing.declaredUnder key → w ∈ t.pairing.declaredUnder key
  added : ∀ key w, w ∈ t.pairing.declaredUnder key →
    w ∈ s.pairing.declaredUnder key ∨ w ∈ t.implicitsUnder key
  defined : ∀ key set, t.implicits.find? key = some set → s.implicits.find? key = some set ∨
    ∃ u ∈ units, ∃ id d, u.decl id = .ok d ∧ d.isFunction ∧ d.hasBody ∧ d.key = key

theorem Demands.of_tables (hexterns : t.externs = s.externs) (hpairing : t.pairing = s.pairing)
    (himplicits : t.implicits = s.implicits) : Demands units s t where
  externs := hexterns
  definitions := by rw [hpairing]
  pairs := by rw [hpairing]
  implicits key set h := by rw [himplicits]; exact h
  declared key w h := by rw [hpairing]; exact h
  added key w h := by rw [hpairing] at h; exact .inl h
  defined key set h := by rw [himplicits] at h; exact .inl h

theorem Demands.implicitsUnder (h : Demands units s t) {key : FunctionKey} {v : VarId}
    (hv : v ∈ s.implicitsUnder key) : v ∈ t.implicitsUnder key := by
  unfold Session.implicitsUnder at hv ⊢
  cases hfound : s.implicits.find? key with
  | none => simp [hfound] at hv
  | some set => rwa [h.implicits key set hfound, ← hfound]

/-- Signatures made later are made under keys of definitions as well. -/
theorem Demands.trans (h : Demands units s t) (h' : Demands units t w) : Demands units s w where
  externs := h'.externs.trans h.externs
  definitions := h'.definitions.trans h.definitions
  pairs := h'.pairs.trans h.pairs
  implicits key set hk := h'.implicits key set (h.implicits key set hk)
  declared key v hv := h'.declared key v (h.declared key v hv)
  added key v hv := by
    rcases h'.added key v hv with hv | hv
    · exact (h.added key v hv).imp_right h'.implicitsUnder
    · exact .inr hv
  defined key set hk := by
    rcases h'.defined key set hk with hk | hdefined
    · exact h.defined key set hk
    · exact .inr hdefined

def demanding (units : List TranslationUnit) : Frame where
  rel := Demands units
  refl _ := .of_tables rfl rfl rfl
  trans := .trans

/-- A signature is made under the key of a definition, and is declared there and nowhere else. -/
theorem implicitPrototype_demands {func : DeclId} (hu : u ∈ units) (hfun : u.IsFunction func)
    (hnone : u.prototypeOf func = .ok none) :
    Stays (demanding units) (implicitPrototype u func) := by
  refine fun s => Meets.bind_requireOpen fun _ _ => Meets.bind_lift fun key hkey =>
    Meets.bind_get ?_
  split
  · exact Meets.pure trivial
  · next hfree =>
    refine Meets.bind_lift fun definition _ => ?_
    refine Meets.bind ((newFunction_meets u _ s).frame.widen fun t (hst : s.Creates t) => ?_)
      fun v t _ ⟨hst, _⟩ => ?_
    · exact .of_tables (by rw [hst.only]) (by rw [hst.only]) (by rw [hst.only])
    -- the two changes make sense together only: the key is declared and remembered
    have hboth : Meets (demanding units) (do
        updatePairing (·.declare key v)
        modify fun s => { s with implicits := s.implicits.insert key (.singleton v) }
        return .singleton v : Op VarSet) t fun _ _ => True := by
      have himplicits : t.implicits = s.implicits := by rw [hst.only]
      refine ⟨⟨rfl, rfl, rfl, ?_, ?_, ?_, ?_⟩, trivial⟩
      · exact fun k set => OrderedMap.find?_insert_of_free (by rw [himplicits]; exact hfree)
      · exact fun k x hx => Pairing.mem_declaredUnder_declare.2 (.inl hx)
      · intro k x hx
        refine (Pairing.mem_declaredUnder_declare.1 hx).imp_right fun ⟨hk, hx⟩ => ?_
        simp [Session.implicitsUnder, OrderedMap.find?_insert, hk, hx]
      · intro k set hk
        simp only [OrderedMap.find?_insert] at hk
        split at hk
        · next hkk =>
          subst hkk
          obtain ⟨id, d, hdefinition⟩ := key_of_definition hfun hnone hkey
          exact .inr ⟨u, hu, id, d, hdefinition⟩
        · exact .inl hk
    exact hboth

theorem admitsFollowing_demanding (hu : u ∈ units) : (demanding units).AdmitsFollowing u where
  creates _ _ _ := .of_tables rfl rfl rfl
  opened _ _ := .of_tables rfl rfl rfl
  pointees _ _ := .of_tables rfl rfl rfl
  implicit _ hfun hnone := implicitPrototype_demands hu hfun hnone

/-- Following all units registers nothing but signatures made on demand. -/
theorem flowUnits_demands (units : List TranslationUnit) :
    Stays (demanding units) (flowUnits units) :=
  flowUnits_stays (fun _ hu => admitsFollowing_demanding hu) fun _ => .of_tables rfl rfl rfl

end Session

end CheckedPointers
