import CheckedPointers.Proofs.Session.Declaring

/-!
What stands at anchors. An anchor holds one function variable at most, the variants of a name stand
at anchors, and what was made on demand for a function without a prototype stands at none, nor does
anything in its slots. So it is whatever is asked of a session, since only new variables are put at
anchors.
-/
namespace CheckedPointers

open Op

namespace Arena

variable {arena arena' : Arena} {n : Nat} {p v : VarId}

def Within (arena : Arena) (p v : VarId) : Prop :=
  p = v ∨ ∃ f, arena.function? v = some f ∧ ∃ slot ∈ f.slots, p ∈ slot

theorem WellFormed.lt_of_within (h : arena.WellFormed n) (hp : arena.Within p v)
    (hv : v < arena.size) : p < arena.size := by
  rcases hp with rfl | ⟨f, hf, slot, hslot, hp⟩
  · exact hv
  · exact lt_of_isPointer ((h.slots hf hslot).isPointer hp)

theorem Grows.within_iff (h : arena.Grows arena') (hv : v < arena.size) :
    arena'.Within p v ↔ arena.Within p v := by
  unfold Within
  rw [h.function?_eq hv]

end Arena

namespace Session

variable {s t : Session} {u : TranslationUnit} {v : VarId} {anchor : Anchor}

/-! ## New variables come last -/

theorem newPointerOver_later {ty : CType} {name : String} {itype : Option String}
    {pointee : Op (Option VarId)}
    (hp : ∀ s, Meets .creates pointee s fun o t => ∀ f, o = some f → t.arena.isFunction f)
    (s : Session) : Meets .creates (newPointerOver ty name itype pointee) s fun v t =>
      s.arena.size ≤ v ∧ t.arena.isPointer v := by
  refine Meets.bind (freshAtoms_meets _ s) fun atoms t (hst : s.Creates t) hatoms => ?_
  refine Meets.bind (hp t) fun o w (htw : t.Creates w) ho => ?_
  have hadmits : w.arena.Admits w.solver.cells.size
      (.pointer ⟨atoms, ty.bottom.display, name, o, ty.isArray, itype⟩) :=
    ⟨ho, fun a ha => Nat.lt_of_lt_of_le (hatoms a ha) htw.solver.size_le⟩
  exact Meets.modifyGet (allocate_meets hadmits).1
    ⟨(hst.trans htw).arena.size_le, isPointer_push w _⟩

theorem newPointer_later (ty : CType) (name : String) (itype : Option String) (s : Session) :
    Meets .creates (newPointer ty name itype) s fun v t =>
      s.arena.size ≤ v ∧ t.arena.isPointer v :=
  newPointerOver_later (fun s => newPointee_meets name s ty) s

theorem newParameter_later (u : TranslationUnit) (d : DeclId) (s : Session) :
    Meets .creates (newParameter u d) s fun v t => s.arena.size ≤ v ∧ t.arena.isPointer v := by
  refine Meets.bind_lift fun p _ => Meets.bind (newPointer_later _ _ _ s) fun v t _ hv => ?_
  split
  · refine Meets.bind (P := fun _ w => t.Creates w)
      (Meets.discard ((boundBelow_meets v .leastSafe t).to_creates.frame.mono fun _ _ _ h => h.1))
      fun _ w _ (htw : t.Creates w) => Meets.pure ?_
    exact hv.imp_right htw.arena.isPointer
  · exact Meets.pure hv

theorem newParameters_later (u : TranslationUnit) (ds : List DeclId) (s : Session) :
    Meets .creates (newParameters u ds) s fun slots t => t.HoldPointers slots ∧
      ∀ slot ∈ slots, ∀ p ∈ slot, s.arena.size ≤ p := by
  induction ds generalizing s with
  | nil => exact Meets.pure ⟨fun _ h => absurd h List.not_mem_nil, by simp⟩
  | cons d rest ih =>
    refine Meets.bind (newParameter_later u d s) fun v t (hst : s.Creates t) ⟨hle, hv⟩ => ?_
    refine Meets.bind (ih t) fun slots w (htw : t.Creates w) ⟨hpointers, hslots⟩ => Meets.pure ?_
    refine ⟨hpointers.cons hv htw.arena, List.forall_mem_cons.2 ⟨fun p hp => ?_, ?_⟩⟩
    · rwa [(VarSet.mem_singleton v p).1 hp]
    · exact fun slot hslot p hp => Nat.le_trans hst.arena.size_le (hslots slot hslot p hp)

/-- A new function and its slots come after all that was there. -/
theorem newFunction_within (u : TranslationUnit) (func : DeclId) (s : Session) :
    Meets .creates (newFunction u func) s fun v t => t.arena.isFunction v ∧
      ∀ p, t.arena.Within p v → s.arena.size ≤ p := by
  refine Meets.bind_lift fun d _ => ?_
  split
  · refine Meets.bind (newPointer_later _ _ _ s) fun r t (hst : s.Creates t) ⟨hle, hr⟩ => ?_
    refine Meets.bind (newParameters_later u _ t)
      fun slots w (htw : t.Creates w) ⟨hpointers, hslots⟩ => ?_
    refine Meets.modifyGet (allocate_function_meets (htw.arena.isPointer hr) hpointers).1
      ⟨isFunction_push w _, fun p hp => ?_⟩
    rcases hp with rfl | ⟨f, hf, slot, hslot, hp⟩
    · exact (hst.trans htw).arena.size_le
    · simp only [Arena.function?_push, if_true, Variable.function?, Option.some.injEq] at hf
      subst hf
      rcases List.mem_cons.1 hslot with rfl | hslot
      · rwa [(VarSet.mem_singleton r p).1 hp]
      · exact Nat.le_trans hst.arena.size_le (hslots slot hslot p hp)
  · exact Meets.fault

/-! ## What stands where -/

/-- A signature made on demand is declared under the key that it was made for, and neither it nor
anything in its slots stands at an anchor. -/
structure SignatureOf (s : Session) (key : FunctionKey) (v : VarId) : Prop where
  declared : v ∈ s.pairing.declaredUnder key
  unplaced : ∀ p, s.arena.Within p v → ∀ anchor, p ∉ s.storedAt anchor

structure Standing (s : Session) : Prop where
  alone : ∀ anchor, ∀ v ∈ s.storedAt anchor, ∀ w ∈ s.storedAt anchor,
    s.arena.isFunction v → s.arena.isFunction w → v = w
  variants : ∀ name, ∀ v ∈ s.variants name, ∃ anchor, v ∈ s.storedAt anchor
  signatures : ∀ key set, s.implicits.find? key = some set →
    ∃ v, set = .singleton v ∧ s.SignatureOf key v

theorem standing_new (options : Options) : (new options).Standing where
  alone _ v hv := absurd hv (VarSet.not_mem_empty v)
  variants _ v hv := absurd hv (VarSet.not_mem_empty v)
  signatures _ _ h := nomatch h

/-- It is not a signature made on demand, nor does it stand in a slot of one. -/
def Loose (s : Session) (v : VarId) : Prop :=
  ∀ key set, s.implicits.find? key = some set → ∀ w ∈ set, ¬ s.arena.Within v w

theorem WellFormed.signature_lt (hs : s.WellFormed) {key : FunctionKey} {set : VarSet}
    (h : s.implicits.find? key = some set) (hv : v ∈ set) : v < s.arena.size :=
  Arena.lt_of_isFunction (hs.implicits _ (OrderedMap.mem_of_find? h) v hv)

/-- New variables are loose. -/
theorem loose_of_le (hs : s.WellFormed) (hst : s.Creates t) (hv : s.arena.size ≤ v) :
    t.Loose v := by
  intro key set hset w hw hwithin
  rw [hst.only] at hset
  have hlt := hs.signature_lt hset hw
  have hold := hs.arena.lt_of_within ((hst.arena.within_iff hlt).1 hwithin) hlt
  exact absurd hold (Nat.not_lt.2 hv)

/-- Variables are added and nothing is put at an anchor; further variables may be declared. -/
theorem Standing.extends (h : s.Standing) (hs : s.WellFormed) (hst : s.Extends t)
    (hindex : t.index = s.index) (hglobals : t.globals = s.globals)
    (himplicits : t.implicits = s.implicits)
    (hdeclared : ∀ key, ∀ v ∈ s.pairing.declaredUnder key, v ∈ t.pairing.declaredUnder key) :
    t.Standing where
  alone a v hv w hw hvfun hwfun := by
    rw [storedAt, hindex] at hv hw
    rw [hst.arena.isFunction_eq (hs.stored_lt hv)] at hvfun
    rw [hst.arena.isFunction_eq (hs.stored_lt hw)] at hwfun
    exact h.alone a v hv w hw hvfun hwfun
  variants name v hv := by
    rw [Session.variants, hglobals] at hv
    obtain ⟨a, ha⟩ := h.variants name v hv
    exact ⟨a, by rwa [storedAt, hindex]⟩
  signatures key set hset := by
    rw [himplicits] at hset
    obtain ⟨v, rfl, hv⟩ := h.signatures key set hset
    have hlt := hs.signature_lt hset ((VarSet.mem_singleton v v).2 rfl)
    refine ⟨v, rfl, hdeclared key v hv.declared, fun p hp a hpa => ?_⟩
    rw [storedAt, hindex] at hpa
    exact hv.unplaced p ((hst.arena.within_iff hlt).1 hp) a hpa

theorem Standing.same (h : s.Standing) (hs : s.WellFormed) (hst : s.Extends t)
    (hsame : s.SameDeclarations t) : t.Standing :=
  h.extends hs hst hsame.index hsame.globals hsame.implicits fun _ _ hv => by rwa [hsame.pairing]

/-- Loose variables are put at an anchor; a function comes by itself, where none stands. -/
theorem Standing.stores {set : VarSet} (h : s.Standing) (hloose : ∀ v ∈ set, s.Loose v)
    (hfun : ∀ v ∈ set, s.arena.isFunction v → s.Vacant anchor ∧ set = .singleton v) :
    { s with
      index := s.index.insert anchor ((s.storedAt anchor).union set) : Session }.Standing where
  alone a v hv w hw hvfun hwfun := by
    rcases (mem_storedAt_insert s anchor a set v).1 hv with hv | ⟨ha, hv⟩ <;>
      rcases (mem_storedAt_insert s anchor a set w).1 hw with hw | ⟨ha, hw⟩
    · exact h.alone a v hv w hw hvfun hwfun
    · exact absurd hvfun ((hfun w hw hwfun).1 v (ha ▸ hv))
    · exact absurd hwfun ((hfun v hv hvfun).1 w (ha ▸ hw))
    · rw [(hfun v hv hvfun).2] at hw
      exact ((VarSet.mem_singleton v w).1 hw).symm
  variants name v hv := by
    obtain ⟨a, ha⟩ := h.variants name v hv
    exact ⟨a, (mem_storedAt_insert s anchor a set v).2 (.inl ha)⟩
  signatures key set' hset := by
    obtain ⟨v, rfl, hv⟩ := h.signatures key set' hset
    refine ⟨v, rfl, hv.declared, fun p hp a hpa => ?_⟩
    rcases (mem_storedAt_insert s anchor a set p).1 hpa with hpa | ⟨-, hpa⟩
    · exact hv.unplaced p hp a hpa
    · exact hloose p hpa key _ hset v ((VarSet.mem_singleton v v).2 rfl) hp

/-- A signature is made for a function without a prototype. -/
theorem Standing.signs {key : FunctionKey} (h : s.Standing)
    (hnew : ∀ p, s.arena.Within p v → ∀ a, p ∉ s.storedAt a) :
    (s.withSignature key v).Standing where
  alone := h.alone
  variants := h.variants
  signatures key' set hset := by
    have hset : (s.implicits.insert key (.singleton v)).find? key' = some set := hset
    rw [OrderedMap.find?_insert] at hset
    split at hset
    · next hkey =>
      cases hset
      exact ⟨v, rfl, Pairing.mem_declaredUnder_declare.2 (.inr ⟨hkey, rfl⟩), hnew⟩
    · obtain ⟨w, rfl, hw⟩ := h.signatures key' set hset
      exact ⟨w, rfl, Pairing.mem_declaredUnder_declare.2 (.inl hw.declared), hw.unplaced⟩

/-- What stands at an anchor becomes a variant of a name. -/
theorem Standing.notesVariants {name : String} {set : VarSet} (h : s.Standing)
    (hset : ∀ v ∈ set, v ∈ s.variants name ∨ ∃ a, v ∈ s.storedAt a) :
    { s with globals := s.globals.insert name set : Session }.Standing where
  alone := h.alone
  variants n v hv := by
    rw [variants_insert] at hv
    split at hv
    · exact (hset v hv).elim (h.variants name v) id
    · exact h.variants n v hv
  signatures key set' hset' := by
    obtain ⟨v, rfl, hv⟩ := h.signatures key set' hset'
    exact ⟨v, rfl, hv.declared, hv.unplaced⟩

end Session

namespace Frame

def stands : Frame where
  rel s t := s.WellFormed → s.Standing → t.WellFormed ∧ t.Standing
  refl _ hs h := ⟨hs, h⟩
  trans h h' hs hstanding := h' (h hs hstanding).1 (h hs hstanding).2

end Frame

namespace Session

variable {s t : Session} {u : TranslationUnit} {v : VarId} {anchor : Anchor} {α : Type} {x : Op α}
  {Q : α → Session → Prop}

theorem stands_of_same (hst : s.Extends t) (hsame : s.SameDeclarations t) :
    Frame.stands.rel s t := fun hs h => ⟨hst.wellFormed hs, h.same hs hst hsame⟩

theorem Creates.meets_stands (h : Meets .creates x s Q) : Meets .stands x s Q :=
  h.widen fun _ hst => stands_of_same hst.toExtends hst.sameDeclarations

/-! ## Declarations -/

theorem updatePairing_stands {g : Pairing → Pairing} {P : PUnit → Session → Prop}
    (h : Meets .visits (updatePairing g) s P)
    (hdeclared : ∀ key, ∀ v ∈ s.pairing.declaredUnder key, v ∈ (g s.pairing).declaredUnder key) :
    Meets .stands (updatePairing g) s fun _ t => t = { s with pairing := g s.pairing } := by
  have hst := (h.of_ends (a := ⟨⟩) (ends_modify.2 rfl)).1
  exact Meets.modify (fun hs hstanding => ⟨hst.wellFormed hs,
    hstanding.extends hs hst.toExtends rfl rfl rfl hdeclared⟩) rfl

theorem store_stands {set : VarSet} (hlt : ∀ v ∈ set, v < s.arena.size)
    (hloose : ∀ v ∈ set, s.Loose v)
    (hfun : ∀ v ∈ set, s.arena.isFunction v → s.Vacant anchor ∧ set = .singleton v) :
    Meets .stands (store anchor set) s fun _ t =>
      t = { s with index := s.index.insert anchor ((s.storedAt anchor).union set) } := by
  refine Meets.modify (fun hs h => ⟨?_, h.stores hloose hfun⟩) rfl
  refine { hs with index := fun e he v hv => ?_ }
  rcases OrderedMap.mem_insert he with rfl | he
  · exact ((VarSet.mem_union _ _ v).1 hv).elim (hlt v) hs.stored_lt
  · exact hs.index e he v hv

/-- Loose pointers are put where parameters stand. -/
theorem storeSlots_stands (slots : List (DeclId × VarSet))
    (h : ∀ e ∈ slots, ∀ p ∈ e.2, s.arena.isPointer p ∧ s.Loose p) :
    Meets .stands (storeSlots u slots) s fun _ _ => True := by
  induction slots generalizing s with
  | nil => exact Meets.pure trivial
  | cons e rest ih =>
    have hslot := h e List.mem_cons_self
    refine Meets.bind_lift fun d _ => Meets.bind (store_stands
      (fun p hp => Arena.lt_of_isPointer (hslot p hp).1) (fun p hp => (hslot p hp).2)
      fun p hp hfun => absurd hfun (Arena.not_isFunction (hslot p hp).1)) fun _ t _ ht => ?_
    subst ht
    exact ih fun e' he' => h e' (List.mem_cons_of_mem e he')

/-- A function is put at its anchor with its slots, none of which stands elsewhere as a signature.
-/
theorem recordFunction_stands (func : DeclId) (hv : s.arena.isFunction v)
    (hslots : ∀ f, s.arena.function? v = some f → ∀ slot ∈ f.params, ∀ p ∈ slot,
      s.arena.isPointer p ∧ s.Loose p) :
    Meets .stands (recordFunction u func v) s fun _ _ => True := by
  have hstore : ∀ (d : Decl) (pairing : Pairing), Meets .stands (do
      let slots := (((← get).arena.function? v).map FunctionVariable.params).getD []
      storeSlots u (d.params.zip slots)) { s with pairing := pairing } fun _ _ => True := by
    intro d pairing
    refine Meets.bind_get (storeSlots_stands _ fun e he p hp => ?_)
    obtain ⟨f, hf⟩ := Arena.isFunction_iff.1 hv
    have hmem := (List.of_mem_zip he).2
    rw [hf] at hmem
    exact hslots f hf e.2 hmem p hp
  refine Meets.bind_lift fun d _ => ?_
  dsimp only
  split
  · refine Meets.bind (updatePairing_stands (define_meets hv) fun _ _ => id) fun _ t _ ht => ?_
    refine Meets.bind_lift fun prototype _ => ?_
    subst ht
    split
    · refine Meets.bind_lift fun key _ => ?_
      refine Meets.bind (updatePairing_stands (pair_meets _ _ _) fun _ _ => id) fun _ w _ hw => ?_
      subst hw
      exact hstore d _
    · exact hstore d _
  · refine Meets.bind (updatePairing_stands (declare_meets hv) fun key w hw => ?_)
      fun _ t _ ht => ?_
    · exact Pairing.mem_declaredUnder_declare.2 (.inl hw)
    · subst ht
      exact hstore d _

/-- An anchor gets a function only if it has none. -/
theorem giveFunction_stands (func : DeclId) (d : Decl) (ty : CType) (hs : s.WellFormed) :
    Meets .stands (giveFunction u func d ty) s fun _ _ => True := by
  refine Meets.bind_get ?_
  split
  · next hnone =>
    simp only [Bool.and_eq_true, Bool.not_eq_true', List.any_eq_false] at hnone
    refine Meets.bind (Creates.meets_stands (newFunction_within u func s).frame)
      fun v t _ ⟨(hst : s.Creates t), hfun, hlater⟩ => ?_
    have ht := hst.wellFormed hs
    have hloose : ∀ p, t.arena.Within p v → t.Loose p := fun p hp =>
      loose_of_le hs hst (hlater p hp)
    have hvacant : t.Vacant d.anchor := by
      intro w hw
      rw [storedAt, hst.sameDeclarations.index] at hw
      rw [hst.arena.isFunction_eq (hs.stored_lt hw)]
      exact hnone.2 w hw
    refine Meets.bind (store_stands (fun w hw => ?_) (fun w hw => ?_) fun w hw _ => ⟨hvacant, ?_⟩)
      fun _ w _ hw => ?_
    · exact (VarSet.mem_singleton v w).1 hw ▸ Arena.lt_of_isFunction hfun
    · exact (VarSet.mem_singleton v w).1 hw ▸ hloose v (.inl rfl)
    · rw [(VarSet.mem_singleton v w).1 hw]
    · subst hw
      refine Meets.bind (recordFunction_stands func hfun fun f hf slot hslot p hp => ?_)
        fun _ _ _ _ => Meets.pure trivial
      have hslot := List.mem_cons_of_mem f.returns hslot
      exact ⟨(ht.arena.slots hf hslot).isPointer hp, hloose p (.inr ⟨f, hf, slot, hslot, hp⟩)⟩
  · exact Meets.pure trivial

theorem givePointer_stands (d : Decl) (ty : CType) (hs : s.WellFormed) :
    Meets .stands (givePointer d ty) s fun _ _ => True := by
  refine Meets.bind_get ?_
  split
  · refine Meets.bind (Creates.meets_stands (newPointer_later ty d.name d.itype? s).frame)
      fun v t _ ⟨(hst : s.Creates t), hlater, hv⟩ => ?_
    refine Meets.bind (store_stands (fun w hw => ?_) (fun w hw => ?_) fun w hw hfun => ?_)
      fun _ _ _ _ => Meets.pure trivial
    all_goals obtain rfl := (VarSet.mem_singleton v w).1 hw
    · exact Arena.lt_of_isPointer hv
    · exact loose_of_le hs hst hlater
    · exact absurd hfun (Arena.not_isFunction hv)
  · exact Meets.pure trivial

/-- To give a declarator its variables leaves standing what stands. -/
theorem giveVariables_stands (id : DeclId) (hs : s.WellFormed) (h : s.Standing) :
    Meets .stands (giveVariables u id) s fun _ _ => True := by
  refine Meets.bind_requireOpen fun _ _ => Meets.bind_lift fun d _ => ?_
  split
  · refine Meets.bind (giveFunction_stands id d _ hs) fun _ t hst _ => ?_
    refine Meets.bind (givePointer_stands d _ (hst hs h).1) fun _ w _ _ => ?_
    dsimp only
    split
    · refine Meets.bind_get ?_
      split
      · exact Meets.bind (P := fun _ _ => True) (Meets.discard (Creates.meets_stands
          (boundSet_meets _ .leastSafe w).any.to_creates)) fun _ _ _ _ => Meets.pure trivial
      · exact Meets.pure trivial
    · exact Meets.pure trivial
  · exact Meets.pure trivial

theorem noteFunction_stands (func : DeclId) (s : Session) :
    Meets .stands (noteFunction u func) s fun _ _ => True := by
  refine Meets.bind_requireOpen fun _ _ => Meets.bind_lift fun d _ => ?_
  split
  · refine Meets.bind (P := fun _ _ => True) (Meets.modify (stands_of_same ?_ ⟨rfl, rfl, rfl, rfl⟩)
      trivial) fun _ t _ _ => Meets.bind_get ?_
    · exact .of_tables rfl rfl rfl rfl fun hs => { hs with index := hs.index }
    · dsimp only
      split
      · have hst := ((addVariants_meets d.anchor d.name t).of_ends (a := ⟨⟩) (ends_modify.2 rfl)).1
        refine Meets.modify (fun hs h => ⟨hst.wellFormed hs, h.notesVariants fun v hv => ?_⟩)
          trivial
        rcases (VarSet.mem_insertAll _ _ v).1 hv with hv | hv
        · exact .inr ⟨d.anchor, (List.mem_filter.1 hv).1⟩
        · exact .inl hv
      · exact Meets.pure trivial
  · exact Meets.pure trivial

/-! ## Making things on demand -/

/-- A signature on demand is declared, and stands nowhere. -/
theorem implicitPrototype_stands (func : DeclId) (hs : s.WellFormed) :
    Meets .stands (implicitPrototype u func) s fun _ _ => True := by
  refine Meets.bind_requireOpen fun _ _ => Meets.bind_lift fun key _ => Meets.bind_get ?_
  split
  · exact Meets.pure trivial
  · next hnone =>
    refine Meets.bind_lift fun definition _ => ?_
    refine Meets.bind (Creates.meets_stands (newFunction_within u _ s).frame)
      fun v t _ ⟨(hst : s.Creates t), hfun, hlater⟩ => ?_
    have hfree : t.implicits.find? key = none := by rw [hst.only]; exact hnone
    have hnew : ∀ p, t.arena.Within p v → ∀ a, p ∉ t.storedAt a := by
      intro p hp a hpa
      rw [storedAt, hst.sameDeclarations.index] at hpa
      exact absurd (hs.stored_lt hpa) (Nat.not_lt.2 (hlater p hp))
    suffices hsigns : Frame.stands.rel t (t.withSignature key v) from ⟨hsigns, trivial⟩
    exact fun ht h => ⟨(visits_withSignature hfree hfun).wellFormed ht, h.signs hnew⟩

/-! ## Sessions that can come about -/

/-- All that is declared leaves standing what stands. -/
theorem stands_admitsDeclaring : Frame.stands.AdmitsDeclaring fun _ => True where
  free hs hwf := absurd hwf hs
  same := stands_of_same
  gives _ id := Stays.of_meets (P := fun s => s.WellFormed ∧ s.Standing)
    (fun h hs hstanding => absurd ⟨hs, hstanding⟩ h) fun _ h => giveVariables_stands id h.1 h.2
  notes _ func s := noteFunction_stands func s
  implicit _ func := Stays.of_meets (fun hs hwf => absurd hwf hs) fun _ hs =>
    implicitPrototype_stands func hs

/-- Whatever was asked for, what stands at anchors is as it should be. -/
theorem Reachable.standing {options : Options} (h : Reachable options s) : s.Standing := by
  induction h with
  | new => exact standing_new options
  | request r hs hends ih =>
    have hrun : Stays .stands r.run := r.run_stays stands_admitsDeclaring fun _ _ => trivial
    exact ((hrun.attempt _).of_ends hends).1 hs.wellFormed ih |>.2

/-! ## What requests keep -/

/-- What every step and every new atom keeps, requests keep. -/
theorem keeps_of_requests {options : Options} {P : Session → Prop} {rs : List Request}
    (hstep : ∀ s t, s.WellFormed → s.Advances t → P s → P t)
    (hfresh : ∀ s, P s → P { s with solver := s.solver.fresh.2 }) (hs : Reachable options s)
    (h : (requests rs).Ends s ⟨⟩ t) (hP : P s) : P t := by
  refine relates_of_requests (P := fun s t => P s → P t) (fun _ hP => hP)
    (fun _ _ _ _ hst htw hP => htw (hst hP)) (fun r _ s b t hs hends hP => ?_) hs h hP
  rcases r.advances_or_fresh hends with hst | rfl
  · exact Frame.steps_keep (fun _ _ hs hst => (hst.step.extends hs).wellFormed hs) hstep hst
      hs.wellFormed hP
  · exact hfresh _ hP

end Session

end CheckedPointers
