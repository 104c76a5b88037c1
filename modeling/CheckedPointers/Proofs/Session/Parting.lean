import CheckedPointers.Proofs.Session.Apartness
import CheckedPointers.Proofs.Session.Requests
import CheckedPointers.Proofs.Session.Staying

/-!
What is remembered of declarations, literals and calls stays parted, whatever is asked of a session:
what stands at anchors shares atoms only with the parameters of a function and the function itself,
what is made on demand shares them with nothing else that is remembered, and what lies one
dereference down owns what lies above.
-/
namespace CheckedPointers

open Op

namespace PointerVariable

variable {p q : PointerVariable}

theorem mem_of_dereferenced (h : p.dereferenced? = some q) {a : Atom} (ha : a ∈ q.atoms) :
    a ∈ p.atoms := by
  unfold dereferenced? at h
  split at h
  · next hatoms =>
    cases h
    rw [hatoms]
    exact List.mem_cons_of_mem _ ha
  · cases h

theorem function_of_dereferenced (h : p.dereferenced? = some q) : q.function = p.function := by
  unfold dereferenced? at h
  split at h
  · cases h
    rfl
  · cases h

end PointerVariable

namespace Session

variable {s t w : Session} {v : VarId}

/-! ## What is remembered -/

inductive OnDemand (s : Session) (v : VarId) : Prop where
  | signature {key : FunctionKey} {set : VarSet} (h : s.implicits.find? key = some set)
      (hv : v ∈ set)
  | literal {o : OpenUnit} {e : ExprId} (ho : s.opened = some o) (h : o.literals.find? e = some v)
  | unknown {o : OpenUnit} {e : ExprId} (ho : s.opened = some o)
      (h : o.unknownCallees.find? e = some v)

def Rooted (s : Session) (v : VarId) : Prop := (∃ anchor, v ∈ s.storedAt anchor) ∨ s.OnDemand v

/-- What was made on demand is there. -/
theorem OnDemand.lt (h : s.OnDemand v) (hs : s.WellFormed) : v < s.arena.size := by
  cases h with
  | signature h hv =>
    exact Arena.lt_of_isFunction (hs.implicits _ (OrderedMap.mem_of_find? h) v hv)
  | literal ho h => exact Arena.lt_of_isPointer (hs.literals _ ho _ (OrderedMap.mem_of_find? h))
  | unknown ho h =>
    exact Arena.lt_of_isFunction (hs.unknownCallees _ ho _ (OrderedMap.mem_of_find? h))

theorem Rooted.lt (h : s.Rooted v) (hs : s.WellFormed) : v < s.arena.size := by
  rcases h with ⟨anchor, hv⟩ | h
  · exact hs.stored_lt hv
  · exact h.lt hs

structure SameRoots (s t : Session) : Prop where
  index : t.index = s.index
  implicits : t.implicits = s.implicits
  opened : t.opened = s.opened

theorem SameRoots.storedAt (h : s.SameRoots t) (anchor : Anchor) :
    t.storedAt anchor = s.storedAt anchor := by
  rw [Session.storedAt, h.index, Session.storedAt]

theorem OnDemand.of_tables (h : t.OnDemand v) (himplicits : t.implicits = s.implicits)
    (hopened : t.opened = s.opened) : s.OnDemand v := by
  cases h with
  | signature hk hv => exact .signature (himplicits ▸ hk) hv
  | literal ho he => exact .literal (hopened ▸ ho) he
  | unknown ho he => exact .unknown (hopened ▸ ho) he

theorem SameRoots.onDemand (h : s.SameRoots t) (hv : t.OnDemand v) : s.OnDemand v :=
  hv.of_tables h.implicits h.opened

theorem SameRoots.rooted (h : s.SameRoots t) (hv : t.Rooted v) : s.Rooted v :=
  hv.imp (fun ⟨anchor, hv⟩ => ⟨anchor, h.storedAt anchor ▸ hv⟩) h.onDemand

theorem Creates.sameRoots (h : s.Creates t) : s.SameRoots t := by
  constructor <;> rw [h.only]

def Foreign (s : Session) (v : VarId) : Prop := ∀ w, s.Rooted w → ¬ s.arena.Shares v w

/-- New variables are foreign. -/
theorem foreign_of_ownsFrom (h : t.arena.OwnsFrom s.solver.cells.size v) (hs : s.WellFormed)
    (hst : s.Creates t) : t.Foreign v := fun _ hw =>
  h.not_shares hs.arena hst.arena ((hst.sameRoots.rooted hw).lt hs)

/-- What is remembered shares no atoms but where it must. -/
structure Parted (s : Session) : Prop where
  stored : ∀ a b, ∀ v ∈ s.storedAt a, ∀ w ∈ s.storedAt b, s.arena.Shares v w → s.arena.Kin v w
  onDemand : ∀ v w, s.OnDemand v → s.Rooted w → s.arena.Shares v w → v = w
  unowned : ∀ o e v, s.opened = some o → o.unknownCallees.find? e = some v →
    ∀ a, ¬ s.arena.Owns v a
  pointees : ∀ v d, s.pointees.find? v = some (some d) → ∀ a, s.arena.Owns d a → s.arena.Owns v a

theorem parted_new (options : Options) : (new options).Parted where
  stored a b v hv := absurd hv (VarSet.not_mem_empty v)
  onDemand v w hv := by
    cases hv with
    | signature h _ => cases h
    | literal ho _ => cases ho
    | unknown ho _ => cases ho
  unowned o e v ho := by cases ho
  pointees v d h := by cases h

/-- Nothing more is remembered. -/
theorem Parted.extends (h : s.Parted) (hs : s.WellFormed) (hst : s.Extends t)
    (hroots : s.SameRoots t) (hpointees : t.pointees = s.pointees) : t.Parted where
  stored a b v hv w hw hshares := by
    rw [hroots.storedAt] at hv hw
    have hshares := (hs.arena.shares_iff hst.arena (hs.stored_lt hv) (hs.stored_lt hw)).1 hshares
    exact (h.stored a b v hv w hw hshares).grows hst.arena
  onDemand v w hv hw hshares := by
    have hv := hroots.onDemand hv
    have hw := hroots.rooted hw
    exact h.onDemand v w hv hw ((hs.arena.shares_iff hst.arena (hv.lt hs) (hw.lt hs)).1 hshares)
  unowned o e v ho hv a ha := by
    rw [hroots.opened] at ho
    have hlt := OnDemand.lt (.unknown ho hv) hs
    exact h.unowned o e v ho hv a ((hs.arena.owns_iff hst.arena hlt).1 ha)
  pointees v d hd a ha := by
    rw [hpointees] at hd
    have hlt := Arena.lt_of_isPointer (hs.pointees _ (OrderedMap.mem_of_find? hd) d rfl)
    have howns := h.pointees v d hd a ((hs.arena.owns_iff hst.arena hlt).1 ha)
    exact (hs.arena.owns_iff hst.arena (Arena.lt_of_owns howns)).2 howns

theorem Parted.creates (h : s.Parted) (hs : s.WellFormed) (hst : s.Creates t) : t.Parted :=
  h.extends hs hst.toExtends hst.sameRoots (by rw [hst.only])

/-- One more variable is remembered that was made on demand. -/
theorem Parted.demands (h : s.Parted) (hv : s.Foreign v) (harena : t.arena = s.arena)
    (hindex : t.index = s.index) (hpointees : t.pointees = s.pointees)
    (honly : ∀ x, t.OnDemand x → s.OnDemand x ∨ x = v)
    (hunowned : ∀ o e x, t.opened = some o → o.unknownCallees.find? e = some x →
      ∀ a, ¬ s.arena.Owns x a) : t.Parted := by
  have hstored : ∀ a, t.storedAt a = s.storedAt a := fun a => by rw [storedAt, hindex, storedAt]
  have hrooted : ∀ x, t.Rooted x → s.Rooted x ∨ x = v := by
    rintro x (⟨a, hx⟩ | hx)
    · exact .inl (.inl ⟨a, hstored a ▸ hx⟩)
    · exact (honly x hx).imp_left .inr
  refine ⟨fun a b x hx y hy => ?_, fun x y hx hy hshares => ?_, harena ▸ hunowned, ?_⟩
  · rw [hstored] at hx hy
    rw [harena]
    exact h.stored a b x hx y hy
  · rw [harena] at hshares
    rcases honly x hx with hx | rfl
    · rcases hrooted y hy with hy | rfl
      · exact h.onDemand x y hx hy hshares
      · exact absurd hshares.symm (hv x (.inr hx))
    · rcases hrooted y hy with hy | rfl
      · exact absurd hshares (hv y hy)
      · rfl
  · rw [hpointees, harena]
    exact h.pointees

/-- It may be put at an anchor: it shares nothing with what was made on demand, and with what stands
at anchors only if they are kin. -/
structure Fits (s : Session) (v : VarId) : Prop where
  lt : v < s.arena.size
  stored : ∀ a, ∀ w ∈ s.storedAt a, s.arena.Shares v w → s.arena.Kin v w
  onDemand : ∀ w, s.OnDemand w → ¬ s.arena.Shares v w

theorem Foreign.fits (h : s.Foreign v) (hv : v < s.arena.size) : s.Fits v where
  lt := hv
  stored a w hw hshares := absurd hshares (h w (.inl ⟨a, hw⟩))
  onDemand w hw := h w (.inr hw)

/-- What fits is put at an anchor. -/
theorem Parted.stores {set : VarSet} (h : s.Parted) (hfits : ∀ v ∈ set, s.Fits v)
    (hkin : ∀ v ∈ set, ∀ w ∈ set, s.arena.Shares v w → s.arena.Kin v w) (anchor : Anchor) :
    { s with
      index := s.index.insert anchor ((s.storedAt anchor).union set) : Session }.Parted where
  stored a b v hv w hw hshares := by
    rcases (mem_storedAt_insert s anchor a set v).1 hv with hv | ⟨-, hv⟩ <;>
      rcases (mem_storedAt_insert s anchor b set w).1 hw with hw | ⟨-, hw⟩
    · exact h.stored a b v hv w hw hshares
    · exact ((hfits w hw).stored a v hv hshares.symm).symm
    · exact (hfits v hv).stored b w hw hshares
    · exact hkin v hv w hw hshares
  onDemand v w hv hw hshares := by
    have hv : s.OnDemand v := hv.of_tables rfl rfl
    rcases hw with ⟨a, hw⟩ | hw
    · rcases (mem_storedAt_insert s anchor a set w).1 hw with hw | ⟨-, hw⟩
      · exact h.onDemand v w hv (.inl ⟨a, hw⟩) hshares
      · exact absurd hshares.symm ((hfits w hw).onDemand v hv)
    · exact h.onDemand v w hv (.inr (hw.of_tables rfl rfl)) hshares
  unowned := h.unowned
  pointees := h.pointees

/-- One more variable is remembered one dereference down. -/
theorem Parted.dereferences {made : Option VarId} (h : s.Parted)
    (hmade : ∀ d, made = some d → ∀ a, s.arena.Owns d a → s.arena.Owns v a) :
    { s with pointees := s.pointees.insert v made : Session }.Parted where
  stored := h.stored
  onDemand x y hx hy := by
    have hroots : SameRoots s { s with pointees := s.pointees.insert v made } := ⟨rfl, rfl, rfl⟩
    exact h.onDemand x y (hroots.onDemand hx) (hroots.rooted hy)
  unowned := h.unowned
  pointees x d hd := by
    rw [OrderedMap.find?_insert] at hd
    split at hd
    · next hx => exact hx ▸ hmade d (Option.some.inj hd)
    · exact h.pointees x d hd

end Session

namespace Frame

def parts : Frame where
  rel s t := s.WellFormed → s.Parted → t.WellFormed ∧ t.Parted
  refl _ hs hp := ⟨hs, hp⟩
  trans h h' hs hp := h' (h hs hp).1 (h hs hp).2

def inf (R R' : Frame) : Frame where
  rel s t := R.rel s t ∧ R'.rel s t
  refl s := ⟨R.refl s, R'.refl s⟩
  trans h h' := ⟨R.trans h.1 h'.1, R'.trans h.2 h'.2⟩

end Frame

namespace Op

variable {α : Type} {R R' : Frame} {s : Session} {x : Op α} {P Q : α → Session → Prop}

theorem Meets.inf (h : Meets R x s P) (h' : Meets R' x s Q) :
    Meets (R.inf R') x s fun a t => P a t ∧ Q a t := by
  rcases hx : x s with ⟨(_ | _) | a, t⟩ <;> simp only [Meets, hx] at h h' ⊢
  · exact ⟨h, h'⟩
  · exact ⟨⟨h.1, h'.1⟩, h.2, h'.2⟩

theorem Meets.to_parts (h : Meets .creates x s Q) : Meets .parts x s Q :=
  h.widen fun _ hst hs hp => ⟨hst.wellFormed hs, hp.creates hs hst⟩

end Op

namespace Session

variable {s t w : Session} {v : VarId} {u : TranslationUnit}

/-! ## Indexing -/

theorem updatePairing_parts {g : Pairing → Pairing} {Q : PUnit → Session → Prop}
    (h : Meets .visits (updatePairing g) s Q) :
    Meets .parts (updatePairing g) s fun _ t => t = { s with pairing := g s.pairing } := by
  have hst := (h.of_ends (a := ⟨⟩) (ends_modify.2 rfl)).1
  exact Meets.modify (fun hs hp => ⟨hst.wellFormed hs,
    hp.extends hs hst.toExtends ⟨rfl, rfl, rfl⟩ rfl⟩) rfl

/-- What fits at an anchor can be put there, if those that share anything are kin. -/
theorem store_parts (anchor : Anchor) {set : VarSet} (hfits : ∀ v ∈ set, s.Fits v)
    (hkin : ∀ v ∈ set, ∀ w ∈ set, s.arena.Shares v w → s.arena.Kin v w) :
    Meets .parts (store anchor set) s fun _ t =>
      t = { s with index := s.index.insert anchor ((s.storedAt anchor).union set) } := by
  refine Meets.modify (fun hs hp => ⟨?_, hp.stores hfits hkin anchor⟩) rfl
  refine { hs with index := fun e he v hv => ?_ }
  rcases OrderedMap.mem_insert he with rfl | he
  · rcases (VarSet.mem_union _ _ v).1 hv with hv | hv
    · exact (hfits v hv).lt
    · exact hs.stored_lt hv
  · exact hs.index e he v hv

/-- Something kin is put at an anchor. -/
theorem Fits.stores {set : VarSet} (h : s.Fits v)
    (hkin : ∀ w ∈ set, s.arena.Shares v w → s.arena.Kin v w) (anchor : Anchor) :
    Fits { s with index := s.index.insert anchor ((s.storedAt anchor).union set) } v where
  lt := h.lt
  stored a w hw hshares := by
    rcases (mem_storedAt_insert s anchor a set w).1 hw with hw | ⟨-, hw⟩
    · exact h.stored a w hw hshares
    · exact hkin w hw hshares
  onDemand w hw := h.onDemand w (hw.of_tables rfl rfl)

theorem Fits.of_sameRoots (h : s.Fits v) (hroots : s.SameRoots t) (harena : t.arena = s.arena) :
    t.Fits v where
  lt := harena ▸ h.lt
  stored a w hw := by
    rw [hroots.storedAt] at hw
    rw [harena]
    exact h.stored a w hw
  onDemand w hw := harena ▸ h.onDemand w (hroots.onDemand hw)

/-- Parameters are put at their anchors without spoiling what is apart, if what shares anything
among them is kin. -/
theorem storeSlots_parts (slots : List (DeclId × VarSet)) (hfits : ∀ e ∈ slots, ∀ v ∈ e.2, s.Fits v)
    (hkin : ∀ e ∈ slots, ∀ e' ∈ slots, ∀ v ∈ e.2, ∀ w ∈ e'.2, s.arena.Shares v w →
      s.arena.Kin v w) : Meets .parts (storeSlots u slots) s fun _ _ => True := by
  induction slots generalizing s with
  | nil => exact Meets.pure trivial
  | cons e rest ih =>
    have hself := List.mem_cons_self (a := e) (l := rest)
    refine Meets.bind_lift fun d _ => Meets.bind (store_parts d.anchor (hfits e hself)
      (hkin e hself e hself)) fun _ t _ ht => ?_
    subst ht
    refine ih (fun e' he' v hv => ?_) fun e' he' e'' he'' =>
      hkin e' (List.mem_cons_of_mem e he') e'' (List.mem_cons_of_mem e he'')
    exact (hfits e' (List.mem_cons_of_mem e he') v hv).stores
      (fun w hw => hkin e' (List.mem_cons_of_mem e he') e hself v hv w hw) d.anchor

/-- What the parameters of a new function need to be put at anchors once the function is. -/
theorem recordFunction_parts (func : DeclId) {f : FunctionVariable}
    (hf : s.arena.function? v = some f) (hfun : s.arena.isFunction v)
    (hfits : ∀ slot ∈ f.params, ∀ p ∈ slot, s.Fits p) (hapart : SlotsApart s f.params) :
    Meets .parts (recordFunction u func v) s fun _ _ => True := by
  have hstore : ∀ (d : Decl) (t : Session), s.SameRoots t → t.arena = s.arena → Meets .parts (do
      let slots := (((← get).arena.function? v).map FunctionVariable.params).getD []
      storeSlots u (d.params.zip slots)) t fun _ _ => True := by
    intro d t hroots harena
    refine Meets.bind_get (storeSlots_parts _ (fun e he p hp => ?_) ?_)
    · rw [harena, hf] at he
      exact (hfits e.2 (List.of_mem_zip he).2 p hp).of_sameRoots hroots harena
    · intro e he e' he' p hp q hq hshares
      rw [harena] at hshares ⊢
      rw [harena, hf] at he he'
      exact .inl (hapart e.2 (List.of_mem_zip he).2 e'.2 (List.of_mem_zip he').2 p hp q hq hshares)
  refine Meets.bind_lift fun d _ => ?_
  dsimp only
  split
  · refine Meets.bind (updatePairing_parts (define_meets hfun)) fun _ t _ ht => ?_
    refine Meets.bind_lift fun prototype _ => ?_
    subst ht
    split
    · refine Meets.bind_lift fun key _ => ?_
      refine Meets.bind (updatePairing_parts (pair_meets _ _ _)) fun _ w _ hw => ?_
      exact hstore d w (by subst hw; exact ⟨rfl, rfl, rfl⟩) (by rw [hw])
    · exact hstore d _ ⟨rfl, rfl, rfl⟩ rfl
  · refine Meets.bind (updatePairing_parts (declare_meets hfun)) fun _ t _ ht => ?_
    exact hstore d t (by subst ht; exact ⟨rfl, rfl, rfl⟩) (by rw [ht])

/-- The parameters of a new function are kin to it and to one another. -/
theorem NewFunction.fits {n : Nat} {f : FunctionVariable} (h : NewFunction n s v f)
    (hforeign : ∀ p, s.arena.OwnsFrom n p → s.Foreign p) {slot : VarSet} (hslot : slot ∈ f.params)
    {p : VarId} (hp : p ∈ slot) : s.Fits p :=
  (hforeign p (h.params.2 slot hslot p hp)).fits (h.params.lt hslot hp)

/-- A function that is put at its anchor shares nothing with what was made on demand. -/
theorem giveFunction_parts (func : DeclId) (d : Decl) (ty : CType) (hs : s.WellFormed) :
    Meets .parts (giveFunction u func d ty) s fun _ _ => True := by
  refine Meets.bind_get ?_
  split
  · refine Meets.bind (newFunction_from u func hs).frame.to_parts fun v t _ ⟨hst, f, hnew⟩ => ?_
    have hforeign : ∀ p, t.arena.OwnsFrom s.solver.cells.size p → t.Foreign p := fun p hp =>
      foreign_of_ownsFrom hp hs hst
    have hfun : t.arena.isFunction v := Arena.isFunction_iff.2 ⟨f, hnew.function⟩
    have hv : t.Fits v := (hforeign v hnew.owns).fits (Arena.lt_of_isFunction hfun)
    refine Meets.bind (store_parts d.anchor (fun x hx => ?_) fun x hx y hy _ => ?_)
      fun _ w _ hw => ?_
    · rwa [(VarSet.mem_singleton v x).1 hx]
    · rw [(VarSet.mem_singleton v x).1 hx, (VarSet.mem_singleton v y).1 hy]
      exact .inl rfl
    · subst hw
      refine Meets.bind (recordFunction_parts func hnew.function hfun (fun slot hslot p hp => ?_)
        hnew.apart) fun _ _ _ _ => Meets.pure trivial
      refine (hnew.fits hforeign hslot hp).stores (fun x hx _ => ?_) d.anchor
      rw [(VarSet.mem_singleton v x).1 hx]
      exact .inr (.inl ⟨f, hnew.function, slot, hslot, hp⟩)
  · exact Meets.pure trivial

theorem givePointer_parts (d : Decl) (ty : CType) (hs : s.WellFormed) :
    Meets .parts (givePointer d ty) s fun _ _ => True := by
  refine Meets.bind_get ?_
  split
  · refine Meets.bind (newPointer_from ty d.name d.itype? hs).frame.to_parts
      fun v t _ ⟨hst, hptr, hown⟩ => ?_
    have hv : t.Fits v := (foreign_of_ownsFrom hown hs hst).fits (Arena.lt_of_isPointer hptr)
    refine Meets.bind (store_parts d.anchor (fun x hx => ?_) fun x hx y hy _ => ?_)
      fun _ _ _ _ => Meets.pure trivial
    · rwa [(VarSet.mem_singleton v x).1 hx]
    · rw [(VarSet.mem_singleton v x).1 hx, (VarSet.mem_singleton v y).1 hy]
      exact .inl rfl
  · exact Meets.pure trivial

/-- To give a declarator its variables keeps apart what must be. -/
theorem giveVariables_parts (id : DeclId) (hs : s.WellFormed) (hp : s.Parted) :
    Meets .parts (giveVariables u id) s fun _ _ => True := by
  refine Meets.bind_requireOpen fun _ _ => Meets.bind_lift fun d _ => ?_
  split
  · refine Meets.bind (giveFunction_parts id d _ hs) fun _ t hst _ => ?_
    refine Meets.bind (givePointer_parts d _ (hst hs hp).1) fun _ w _ _ => ?_
    dsimp only
    split
    · refine Meets.bind_get ?_
      split
      · refine Meets.bind (P := fun _ _ => True) (Meets.discard
          (boundSet_meets _ .leastSafe w).any.to_creates.to_parts) fun _ _ _ _ => ?_
        exact Meets.pure trivial
      · exact Meets.pure trivial
    · exact Meets.pure trivial
  · exact Meets.pure trivial

theorem noteFunction_parts (func : DeclId) (s : Session) :
    Meets .parts (noteFunction u func) s fun _ _ => True := by
  refine Meets.bind_requireOpen fun _ _ => Meets.bind_lift fun d _ => ?_
  split
  · refine Meets.bind (P := fun _ _ => True) (Meets.modify (fun hs hp => ⟨?_, ?_⟩) trivial)
      fun _ t _ _ => Meets.bind_get ?_
    · exact { hs with index := hs.index }
    · exact hp.extends hs (.of_tables rfl rfl rfl rfl fun hs => { hs with index := hs.index })
        ⟨rfl, rfl, rfl⟩ rfl
    · dsimp only
      split
      · have hst := ((addVariants_meets d.anchor d.name t).of_ends (a := ⟨⟩) (ends_modify.2 rfl)).1
        exact Meets.modify (fun hs hp => ⟨hst.wellFormed hs,
          hp.extends hs hst.toExtends ⟨rfl, rfl, rfl⟩ rfl⟩) trivial
      · exact Meets.pure trivial
  · exact Meets.pure trivial

/-! ## Making things on demand -/

/-- A signature made on demand owns new atoms only, so it shares nothing with what stands at
anchors. -/
theorem implicitPrototype_parts (func : DeclId) (hs : s.WellFormed) :
    Meets .parts (implicitPrototype u func) s fun _ _ => True := by
  refine Meets.bind_requireOpen fun _ _ => Meets.bind_lift fun key _ => Meets.bind_get ?_
  split
  · exact Meets.pure trivial
  · next hnone =>
    refine Meets.bind_lift fun definition _ => ?_
    refine Meets.bind (newFunction_from u _ hs).frame.to_parts fun v t _ ⟨hst, f, hnew⟩ => ?_
    have hfun : t.arena.isFunction v := Arena.isFunction_iff.2 ⟨f, hnew.function⟩
    have hforeign : t.Foreign v := foreign_of_ownsFrom hnew.owns hs hst
    refine Meets.bind (updatePairing_parts (declare_meets hfun)) fun _ w _ hw => ?_
    have hroots : t.SameRoots w := by subst hw; exact ⟨rfl, rfl, rfl⟩
    have hfree : w.implicits.find? key = none := by rw [hroots.implicits, hst.only]; exact hnone
    have hwz := ((addImplicit_meets (by rw [hw]; exact hfun) hfree).of_ends (a := ⟨⟩)
      (ends_modify.2 rfl)).1
    refine Meets.bind (P := fun _ _ => True) (Meets.modify (fun hw' hp => ⟨hwz.wellFormed hw',
      hp.demands (v := v) (fun x hx => ?_) rfl rfl rfl (fun x hx => ?_) hp.unowned⟩) trivial)
      fun _ _ _ _ => Meets.pure trivial
    · rw [hw]
      exact hforeign x (hroots.rooted hx)
    · cases hx with
      | signature h hx =>
        rw [OrderedMap.find?_insert] at h
        split at h
        · cases h
          exact .inr ((VarSet.mem_singleton v x).1 hx)
        · exact .inl (.signature h hx)
      | literal ho h => exact .inl (.literal ho h)
      | unknown ho h => exact .inl (.unknown ho h)

theorem dereferenceOne_parts (hs : s.WellFormed) :
    Meets .parts (dereferenceOne v) s fun _ _ => True := by
  refine Meets.bind_get ?_
  split
  · exact Meets.pure trivial
  · next hnone =>
    refine Meets.bind_get ?_
    have hkeep : ∀ (made : Option VarId) (t : Session), s.Creates t →
        (∀ d, made = some d → t.arena.isPointer d ∧ ∀ a, t.arena.Owns d a → t.arena.Owns v a) →
        Meets .parts (do
          modify fun s => { s with pointees := s.pointees.insert v made }
          return made) t fun _ _ => True := by
      intro made t hst hmade
      have hfree : t.pointees.find? v = none := by rw [hst.only]; exact hnone
      have htw := ((addPointee_meets (fun d hd => (hmade d hd).1) hfree).of_ends (a := ⟨⟩)
        (ends_modify.2 rfl)).1
      refine Meets.bind (P := fun _ _ => True) (Meets.modify (fun ht hp => ⟨htw.wellFormed ht,
        hp.dereferences fun d hd => (hmade d hd).2⟩) trivial) fun _ _ _ _ => Meets.pure trivial
    split
    · next q hq =>
      obtain ⟨p, hp, hqp⟩ := Option.bind_eq_some_iff.1 hq
      have hadmits := hs.arena.admits_dereferenced hp hqp
      refine Meets.bind (P := fun o t => s.Creates t ∧ ∀ d, o = some d → t.arena.isPointer d ∧
          ∀ a, t.arena.Owns d a → t.arena.Owns v a)
        (Meets.map ((allocate_meets hadmits).frame.to_parts.mono fun d t _ ⟨hst, hd⟩ => ?_))
        fun made t _ hmade => hkeep made t hmade.1 hmade.2
      refine ⟨hst, fun d' hd' => ?_⟩
      cases hd'
      have ht := hst.wellFormed hs
      have hptr := Arena.pointer?_of_getElem? hd
      refine ⟨Arena.isPointer_iff.2 ⟨q, hptr⟩, fun a ha => ?_⟩
      refine (ht.arena.owns_pointer (hst.arena.pointer? hp)).2 ?_
      exact ((ht.arena.owns_pointer hptr).1 ha).imp (PointerVariable.mem_of_dereferenced hqp)
        (PointerVariable.function_of_dereferenced hqp ▸ id)
    · refine hkeep none s (.refl s) fun d hd => ?_
      cases hd

/-- A foreign variable is remembered for the open unit. -/
theorem setOpen_parts {o o' : OpenUnit} {Q : PUnit → Session → Prop}
    (hmeets : Meets .visits (setOpen o') s Q) (ho : s.opened = some o) (hv : s.Foreign v)
    (hlit : ∀ e x, o'.literals.find? e = some x → o.literals.find? e = some x ∨ x = v)
    (hunk : ∀ e x, o'.unknownCallees.find? e = some x →
      o.unknownCallees.find? e = some x ∨ x = v ∧ ∀ a, ¬ s.arena.Owns v a) :
    Meets .parts (setOpen o') s fun _ _ => True := by
  have hst := (hmeets.of_ends (a := ⟨⟩) (ends_modify.2 rfl)).1
  refine Meets.modify (fun hs hp => ⟨hst.wellFormed hs,
    hp.demands hv rfl rfl rfl (fun x hx => ?_) fun o'' e x ho'' hx => ?_⟩) trivial
  · cases hx with
    | signature h hx => exact .inl (.signature h hx)
    | literal ho' h =>
      cases ho'
      exact (hlit _ x h).imp_left (.literal ho)
    | unknown ho' h =>
      cases ho'
      exact (hunk _ x h).imp (.unknown ho) And.left
  · cases ho''
    rcases hunk e x hx with hx | ⟨rfl, hx⟩
    · exact hp.unowned o e x ho hx
    · exact hx

/-- A literal owns a new atom. -/
theorem literalVariable_parts (e : ExprId) (value : String) (hs : s.WellFormed) :
    Meets .parts (literalVariable u e value) s fun _ _ => True := by
  refine Meets.bind_current fun o ho => ?_
  split
  · exact Meets.pure trivial
  · next hnone =>
    refine Meets.bind ((freshAtom_meets s).both (freshAtom_from s)).frame.to_parts
      fun a t _ ⟨hst, hlt, _, ha⟩ => ?_
    refine Meets.bind (P := fun _ w => t.Creates w) (Meets.discard
      ((addConstraint_meets _ t).to_creates.frame.to_parts.mono fun _ _ _ h => h.1))
      fun _ w _ htw => ?_
    have hadmits : w.arena.Admits w.solver.cells.size
        (.pointer ⟨[a], "const char", value, none, false, none⟩) := by
      constructor
      · intro f hf
        cases hf
      · intro b hb
        rw [List.mem_singleton.1 hb]
        exact Nat.lt_of_lt_of_le hlt htw.solver.size_le
    refine Meets.bind (allocate_meets hadmits).frame.to_parts fun v z _ ⟨hwz, hv⟩ => ?_
    have hsz := (hst.trans htw).trans hwz
    have hptr := Arena.pointer?_of_getElem? hv
    have hforeign : z.Foreign v := by
      refine foreign_of_ownsFrom (fun b hb => ?_) hs hsz
      rcases ((hsz.wellFormed hs).arena.owns_pointer hptr).1 hb with hb | ⟨f, hf, -⟩
      · exact Nat.le_of_eq (ha.symm.trans (List.mem_singleton.1 hb).symm)
      · cases hf
    refine Meets.bind_current fun o' ho' => ?_
    obtain rfl : o' = o := by
      have hopened : z.opened = s.opened := by rw [hsz.only]
      exact Option.some.inj (ho'.1.symm.trans (hopened.trans ho.1))
    have hmeets : Meets .visits (setOpen { o' with literals := o'.literals.insert e v }) z _ :=
      setOpen_meets ho'.1 ⟨rfl, rfl, fun _ _ => OrderedMap.find?_insert_of_free hnone, fun _ _ => id⟩
      (fun x hx => ?_) fun x hx => .inl hx
    · refine Meets.bind (setOpen_parts hmeets ho'.1 hforeign (fun e' x hx => ?_)
        fun _ _ hx => .inl hx) fun _ _ _ _ => Meets.pure trivial
      rw [OrderedMap.find?_insert] at hx
      split at hx
      · exact .inr (Option.some.inj hx).symm
      · exact .inl hx
    · rcases OrderedMap.mem_insert hx with rfl | hx
      · exact .inr (Arena.isPointer_iff.2 ⟨_, hptr⟩)
      · exact .inl hx

/-- The signature of an unknown callee owns nothing. -/
theorem unknownCallee_parts (call : ExprId) (hs : s.WellFormed) :
    Meets .parts (unknownCallee u call) s fun _ _ => True := by
  refine Meets.bind_current fun o ho => ?_
  split
  · exact Meets.pure trivial
  · next hfree =>
    have hadmits : s.arena.Admits s.solver.cells.size (.function .unknown) := fun slot hslot =>
      .inl (List.mem_singleton.1 hslot)
    refine Meets.bind (allocate_meets hadmits).frame.to_parts fun v t _ ⟨hst, hv⟩ => ?_
    have hf := Arena.function?_of_getElem? hv
    have hnone : ∀ a, ¬ t.arena.Owns v a := by
      intro a ha
      obtain ⟨slot, hslot, p, hp, -⟩ := ((hst.wellFormed hs).arena.owns_function hf).1 ha
      rw [List.mem_singleton.1 hslot] at hp
      exact VarSet.not_mem_empty p hp
    have hforeign : t.Foreign v := fun w _ ⟨a, ha, _⟩ => hnone a ha
    refine Meets.bind_current fun o' ho' => ?_
    obtain rfl : o' = o := by
      have hopened : t.opened = s.opened := by rw [hst.only]
      exact Option.some.inj (ho'.1.symm.trans (hopened.trans ho.1))
    have hmeets : Meets .visits
        (setOpen { o' with unknownCallees := o'.unknownCallees.insert call v }) t _ :=
      setOpen_meets ho'.1 ⟨rfl, rfl, fun _ _ => id, fun _ _ => OrderedMap.find?_insert_of_free hfree⟩
      (fun x hx => .inl hx) fun x hx => ?_
    · refine Meets.bind (setOpen_parts hmeets ho'.1 hforeign (fun _ _ hx => .inl hx)
        fun e' x hx => ?_) fun _ _ _ _ => Meets.pure trivial
      rw [OrderedMap.find?_insert] at hx
      split at hx
      · exact .inr ⟨(Option.some.inj hx).symm, hnone⟩
      · exact .inl hx
    · rcases OrderedMap.mem_insert hx with rfl | hx
      · exact .inr (Arena.isFunction_iff.2 ⟨_, hf⟩)
      · exact .inl hx

end Session

end CheckedPointers
