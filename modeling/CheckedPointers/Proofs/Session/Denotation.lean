import CheckedPointers.Proofs.Session.Indexing
import CheckedPointers.Proofs.Session.Recall
import CheckedPointers.Proofs.Source.Closed
import CheckedPointers.Session.Denotation.Expr
import Mathlib.Data.List.Basic

/-!
What an expression denotes is settled by the first look. What had to be made on the way is
remembered as long as the unit is open, so every later look finds the same variables and changes
nothing.
-/
namespace CheckedPointers

open Op

namespace Op

variable {α β : Type} {s t w : Session} {x : Op α} {Q : α → Session → Prop}
  {Q' : β → Session → Prop}

theorem IsOpen.visits {u : TranslationUnit} {o : OpenUnit} (h : IsOpen u o t) (htw : t.Visits w) :
    ∃ o', IsOpen u o' w ∧ o.Remembers o' := by
  obtain ⟨o', ho', hr⟩ := htw.opened o h.1
  exact ⟨o', ⟨ho', hr.id.trans h.2.1, hr.file.trans h.2.2⟩, hr⟩

theorem Recalls.bind_requireOpen {R : Frame} {u : TranslationUnit} {f : PUnit → Op β}
    (hR : ∀ w, R.rel s w → s.Visits w) (h : Recalls R (f ⟨⟩) s Q') :
    Recalls R (Session.requireOpen u >>= f) s Q' := by
  refine Recalls.bind (P := fun _ t => t = s) ?_ fun _ t _ ht => ht ▸ h
  refine Meets.bind_current fun o ho => Meets.pure ⟨rfl, fun w hw => ?_⟩
  obtain ⟨o', ho', -⟩ := ho.visits (hR w hw)
  exact ends_bind.2 ⟨o', w, ends_current ho', ends_pure.2 ⟨rfl, rfl⟩⟩

/-- What is looked up in a table of the open unit before it is made is made once. -/
theorem Recalls.of_unit_table {u : TranslationUnit} (look : OpenUnit → Option α)
    {g : OpenUnit → Op α} (hlook : ∀ o a, look o = some a → g o = Pure.pure a)
    (hkept : ∀ {o o' : OpenUnit} {a}, o.Remembers o' → look o = some a → look o' = some a)
    (hfound : ∀ o a, IsOpen u o s → look o = some a → Q a s)
    (hmade : ∀ o, IsOpen u o s → look o = none →
      Meets .visits (g o) s fun a t => (∃ o', IsOpen u o' t ∧ look o' = some a) ∧ Q a t) :
    Recalls .visits (Session.current u >>= g) s Q := by
  have hagain : ∀ a t, (∃ o, IsOpen u o t ∧ look o = some a) →
      Replays .visits (Session.current u >>= g) a t := by
    intro a t ⟨o, ho, ha⟩ w htw
    obtain ⟨o', ho', hr⟩ := ho.visits htw
    refine ends_bind.2 ⟨o', w, ends_current ho', ?_⟩
    rw [hlook o' a (hkept hr ha)]
    exact ends_pure.2 ⟨rfl, rfl⟩
  refine Meets.bind_current fun o ho => ?_
  cases hlooked : look o with
  | some a =>
    rw [hlook o a hlooked]
    exact Meets.pure ⟨hfound o a ho hlooked, hagain a s ⟨o, ho, hlooked⟩⟩
  | none => exact (hmade o ho hlooked).mono fun a t _ ⟨ht, hq⟩ => ⟨hq, hagain a t ht⟩

end Op

namespace Session

variable {s t : Session}

def Holds (set : VarSet) (s : Session) : Prop := ∀ v ∈ set, v < s.arena.size

theorem Holds.empty (s : Session) : Holds .empty s :=
  fun v hv => absurd hv (VarSet.not_mem_empty v)

theorem Holds.singleton {v : VarId} (h : v < s.arena.size) : Holds (.singleton v) s :=
  fun w hw => (VarSet.mem_singleton v w).1 hw ▸ h

theorem Holds.extends {set : VarSet} (h : Holds set s) (hst : s.Extends t) : Holds set t :=
  fun v hv => Nat.lt_of_lt_of_le (h v hv) hst.arena.size_le

theorem Holds.union {x y : VarSet} (hx : Holds x s) (hy : Holds y s) : Holds (x.union y) s := by
  intro v hv
  rcases (VarSet.mem_union x y v).1 hv with hv | hv
  · exact hy v hv
  · exact hx v hv

/-! ## What is made once -/

theorem addImplicit_meets {key : FunctionKey} {v : VarId} (hv : s.arena.isFunction v)
    (hfree : s.implicits.find? key = none) :
    Meets .visits
      (modify fun s => { s with implicits := s.implicits.insert key (.singleton v) }) s
      fun _ t => t = { s with implicits := s.implicits.insert key (.singleton v) } := by
  refine Meets.modify ⟨⟨.of_tables rfl rfl rfl rfl fun hs => ?_, rfl, rfl, fun _ _ =>
    OrderedMap.find?_insert_of_free hfree, fun _ _ => id⟩, fun o ho => ⟨o, ho, .refl o⟩⟩ rfl
  refine { hs with implicits := fun e he w hw => ?_ }
  rcases OrderedMap.mem_insert he with rfl | he
  · rwa [(VarSet.mem_singleton v w).1 hw]
  · exact hs.implicits e he w hw

/-- Asked for again, the signature made on demand for a function is the same. -/
theorem implicitPrototype_recalls (u : TranslationUnit) (func : DeclId) (hs : s.WellFormed) :
    Recalls .visits (implicitPrototype u func) s fun set t => Holds set t ∧
      ∃ key, u.pairingKey func = .ok key ∧ t.implicits.find? key = some set := by
  refine Recalls.bind_requireOpen (fun _ => id) (Recalls.bind_lift fun key hkey => ?_)
  have hfound : ∀ set, s.implicits.find? key = some set → Holds set s := fun set hset v hv =>
    Arena.lt_of_isFunction (hs.implicits _ (OrderedMap.mem_of_find? hset) v hv)
  refine Recalls.of_table (fun s => s.implicits.find? key) (fun t set h => by simp only [h])
    (fun htw => htw.implicits key _) (fun set hset => ⟨hfound set hset, key, hkey, hset⟩)
    fun hnone => ?_
  · simp only [hnone]
    refine Meets.bind_lift fun def? _ => ?_
    refine Meets.bind (newFunction_meets u _ s).frame.to_visits fun v t _ hnew => ?_
    obtain ⟨hst, _, f, -, -, hf, -⟩ := hnew
    have hv : t.arena.isFunction v := Arena.isFunction_iff.2 ⟨f, hf⟩
    refine Meets.bind (declare_meets hv) fun _ w _ hw => ?_
    have hfun : w.arena.isFunction v := by rw [hw]; exact hv
    have hfree : w.implicits.find? key = none := by rw [hw, hst.only]; exact hnone
    refine Meets.bind (addImplicit_meets hfun hfree) fun _ z _ hz => Meets.pure ?_
    subst hz
    have hset : (w.implicits.insert key (.singleton v)).find? key = some (.singleton v) := by
      simp [OrderedMap.find?_insert]
    exact ⟨hset, Holds.singleton (Arena.lt_of_isFunction hfun), key, hkey, hset⟩

theorem slotsOf_eq {functions : VarSet} (h : Holds functions s) (hst : s.Extends t) (i : Nat) :
    slotsOf t.arena i functions = slotsOf s.arena i functions := by
  unfold slotsOf
  congr 1
  refine List.flatMap_congr fun v hv => ?_
  rw [hst.arena.function?_eq (h v hv)]

/-- Whether some variable of a set is a function, in a larger session as well. -/
theorem anyFunction_eq {set : VarSet} (h : Holds set s) (hst : s.Extends t) :
    set.members.any t.arena.isFunction = set.members.any s.arena.isFunction := by
  rw [Bool.eq_iff_iff, List.any_eq_true, List.any_eq_true]
  refine exists_congr fun v => and_congr_right fun hv => ?_
  rw [hst.arena.isFunction_eq (h v hv)]

theorem holds_slotsOf (hs : s.WellFormed) (i : Nat) (functions : VarSet) :
    Holds (slotsOf s.arena i functions) s := by
  intro v hv
  rw [slotsOf, VarSet.mem_ofList, List.mem_flatMap] at hv
  obtain ⟨w, -, hv⟩ := hv
  cases hslot : (s.arena.function? w).bind fun f => f.params[i]? with
  | none =>
    rw [hslot] at hv
    cases hv
  | some slot =>
    obtain ⟨f, hf, hi⟩ := Option.bind_eq_some_iff.1 hslot
    rw [hslot] at hv
    have hmem : slot ∈ f.slots := List.mem_cons_of_mem _ (List.mem_of_getElem? hi)
    exact Arena.lt_of_isPointer ((hs.arena.slots hf hmem).isPointer hv)

theorem addPointee_meets {v : VarId} {made : Option VarId}
    (hmade : ∀ d, made = some d → s.arena.isPointer d) (hfree : s.pointees.find? v = none) :
    Meets .visits (modify fun s => { s with pointees := s.pointees.insert v made }) s
      fun _ t => t = { s with pointees := s.pointees.insert v made } := by
  refine Meets.modify ⟨⟨.of_tables rfl rfl rfl rfl fun hs => ?_, rfl, rfl, fun _ _ => id,
    fun _ _ => OrderedMap.find?_insert_of_free hfree⟩, fun o ho => ⟨o, ho, .refl o⟩⟩ rfl
  refine { hs with pointees := fun e he d hd => ?_ }
  rcases OrderedMap.mem_insert he with rfl | he
  · exact hmade d hd
  · exact hs.pointees e he d hd

/-- What lies one dereference below a variable is remembered, whether it was there or made now. -/
theorem dereferenceOne_recalls (v : VarId) (hs : s.WellFormed) :
    Recalls .visits (dereferenceOne v) s fun o t =>
      t.pointees.find? v = some o ∧ ∀ d, o = some d → t.arena.isPointer d := by
  have hfound : ∀ o, s.pointees.find? v = some o → ∀ d, o = some d → s.arena.isPointer d :=
    fun o ho => hs.pointees _ (OrderedMap.mem_of_find? ho)
  refine Recalls.of_table (fun s => s.pointees.find? v) (fun t o h => by simp only [h])
    (fun htw => htw.pointees v _) (fun o ho => ⟨ho, hfound o ho⟩) fun hnone => ?_
  simp only [hnone]
  refine Meets.bind_get ?_
  have hkeep : ∀ made t, s.Creates t → (∀ d, made = some d → t.arena.isPointer d) →
      Meets .visits (do
        modify fun s => { s with pointees := s.pointees.insert v made }
        return made) t fun o w => w.pointees.find? v = some o ∧
          w.pointees.find? v = some o ∧ ∀ d, o = some d → w.arena.isPointer d := by
    intro made t hst hmade
    have hfree : t.pointees.find? v = none := by rw [hst.only]; exact hnone
    refine Meets.bind (addPointee_meets hmade hfree) fun _ w _ hw => Meets.pure ?_
    subst hw
    have hfound : (t.pointees.insert v made).find? v = some made := by
      simp [OrderedMap.find?_insert]
    exact ⟨hfound, hfound, hmade⟩
  split
  · next p hp =>
    obtain ⟨q, hq, hqp⟩ := Option.bind_eq_some_iff.1 hp
    have hadmits := hs.arena.admits_dereferenced hq hqp
    refine Meets.bind (P := fun o t => s.Creates t ∧ ∀ d, o = some d → t.arena.isPointer d)
      (Meets.map ((allocate_meets hadmits).frame.to_visits.mono fun d t _ hnew => ?_))
      fun made t _ hmade => hkeep made t hmade.1 hmade.2
    refine ⟨hnew.1, fun d' hd' => ?_⟩
    obtain ⟨-, hd⟩ := hnew
    cases hd'
    exact Arena.isPointer_iff.2 ⟨p, Arena.pointer?_of_getElem? hd⟩
  · apply hkeep none s (.refl s)
    intro d hd
    cases hd

/-- What lies below some variables is remembered of each of them. -/
theorem dereferenceAll_found (vs : List VarId) (hs : s.WellFormed) :
    Meets .visits (dereferenceAll vs) s fun set t =>
      (∀ v ∈ vs, ∃ below, t.pointees.find? v = some below) ∧
        ∀ w, w ∈ set ↔ ∃ v ∈ vs, t.pointees.find? v = some (some w) := by
  induction vs generalizing s with
  | nil => exact Meets.pure (by simp)
  | cons v rest ih =>
    refine Meets.bind (dereferenceOne_recalls v hs) fun below t hst hbelow => ?_
    refine Meets.bind (ih (hst.wellFormed hs)) fun others w htw hothers => ?_
    obtain ⟨hall, hmem⟩ := hothers
    have hfound := htw.pointees v below hbelow.1.1
    refine Meets.pure ⟨List.forall_mem_cons.2 ⟨⟨below, hfound⟩, hall⟩, fun x => ?_⟩
    simp only [List.mem_cons, exists_eq_or_imp, hfound, ← hmem, Option.some.injEq]
    cases below with
    | none => simp
    | some d => simp [eq_comm]

theorem setOpen_meets {o o' : OpenUnit} (ho : s.opened = some o) (hr : o.Remembers o')
    (hlit : ∀ e ∈ o'.literals.entries, e ∈ o.literals.entries ∨ s.arena.isPointer e.2)
    (hunk : ∀ e ∈ o'.unknownCallees.entries,
      e ∈ o.unknownCallees.entries ∨ s.arena.isFunction e.2) :
    Meets .visits (setOpen o') s fun _ t => t = { s with opened := some o' } := by
  refine Meets.modify ⟨⟨.of_tables rfl rfl rfl rfl fun hs => ?_, rfl, rfl, fun _ _ => id,
    fun _ _ => id⟩, fun o₁ ho₁ => ⟨o', rfl, ?_⟩⟩ rfl
  · refine { hs with literals := ?_, unknownCallees := ?_ }
    · rintro _ ⟨⟩ e he
      exact (hlit e he).elim (hs.literals o ho e) id
    · rintro _ ⟨⟩ e he
      exact (hunk e he).elim (hs.unknownCallees o ho e) id
  · obtain rfl := Option.some.inj (ho.symm.trans ho₁)
    exact hr

/-- A literal has one variable for as long as its unit stays open. -/
theorem literalVariable_recalls (u : TranslationUnit) (e : ExprId) (value : String)
    (hs : s.WellFormed) :
    Recalls .visits (literalVariable u e value) s fun v t =>
      (∃ o, IsOpen u o t ∧ o.literals.find? e = some v) ∧ t.arena.isPointer v := by
  have hfound : ∀ o v, IsOpen u o s → o.literals.find? e = some v → s.arena.isPointer v :=
    fun o v ho hv => hs.literals o ho.1 _ (OrderedMap.mem_of_find? hv)
  refine Recalls.of_unit_table (fun o => o.literals.find? e) (fun o v h => by simp only [h])
    (fun hr => hr.literals e _) (fun o v ho hv => ⟨⟨o, ho, hv⟩, hfound o v ho hv⟩)
    fun o ho hnone => ?_
  simp only [hnone]
  refine Meets.bind (freshAtom_meets s).frame.to_visits fun a t _ hatom => ?_
  obtain ⟨hst, ha⟩ := hatom
  refine Meets.bind (P := fun _ w => t.Creates w)
    (Meets.discard ((addConstraint_meets _ t).to_creates.frame.to_visits.mono
      fun _ _ _ h => h.1)) fun _ w _ htw => ?_
  have hadmits : w.arena.Admits w.solver.cells.size
      (.pointer ⟨[a], "const char", value, none, false, none⟩) := by
    constructor
    · intro f hf
      cases hf
    · intro b hb
      rw [List.mem_singleton.1 hb]
      exact Nat.lt_of_lt_of_le ha htw.solver.size_le
  refine Meets.bind (allocate_meets hadmits).frame.to_visits fun v z _ hnew => ?_
  obtain ⟨hwz, hv⟩ := hnew
  have hptr : z.arena.isPointer v := Arena.isPointer_iff.2 ⟨_, Arena.pointer?_of_getElem? hv⟩
  refine Meets.bind_current fun o' ho' => ?_
  obtain rfl : o' = o := by
    have hopened : z.opened = s.opened := by rw [hwz.only, htw.only, hst.only]
    exact Option.some.inj (ho'.1.symm.trans (hopened.trans ho.1))
  refine Meets.bind (setOpen_meets ho'.1 ⟨rfl, rfl, fun _ _ =>
    OrderedMap.find?_insert_of_free hnone, fun _ _ => id⟩ (fun x hx => ?_) fun x hx => .inl hx)
    fun _ y _ hy => Meets.pure ?_
  · rcases OrderedMap.mem_insert hx with rfl | hx
    · exact .inr hptr
    · exact .inl hx
  · subst hy
    have hfound : (o'.literals.insert e v).find? e = some v := by simp [OrderedMap.find?_insert]
    exact ⟨⟨_, ⟨rfl, ho'.2⟩, hfound⟩, ⟨_, ⟨rfl, ho'.2⟩, hfound⟩, hptr⟩

/-- A call of an unknown target has one signature for as long as its unit stays open. -/
theorem unknownCallee_recalls (u : TranslationUnit) (call : ExprId) (hs : s.WellFormed) :
    Recalls .visits (unknownCallee u call) s fun v t =>
      (∃ o, IsOpen u o t ∧ o.unknownCallees.find? call = some v) ∧ t.arena.isFunction v := by
  have hfound : ∀ o v, IsOpen u o s → o.unknownCallees.find? call = some v →
      s.arena.isFunction v := fun o v ho hv =>
    hs.unknownCallees o ho.1 _ (OrderedMap.mem_of_find? hv)
  refine Recalls.of_unit_table (fun o => o.unknownCallees.find? call)
    (fun o v h => by simp only [h]) (fun hr => hr.unknownCallees call _)
    (fun o v ho hv => ⟨⟨o, ho, hv⟩, hfound o v ho hv⟩) fun o ho hnone => ?_
  simp only [hnone]
  have hadmits : s.arena.Admits s.solver.cells.size (.function .unknown) := by
    intro slot hslot
    exact .inl (List.mem_singleton.1 hslot)
  refine Meets.bind (allocate_meets hadmits).frame.to_visits fun v t _ hnew => ?_
  obtain ⟨hst, hv⟩ := hnew
  have hfun : t.arena.isFunction v := Arena.isFunction_iff.2 ⟨_, Arena.function?_of_getElem? hv⟩
  refine Meets.bind_current fun o' ho' => ?_
  obtain rfl : o' = o := by
    have hopened : t.opened = s.opened := by rw [hst.only]
    exact Option.some.inj (ho'.1.symm.trans (hopened.trans ho.1))
  refine Meets.bind (setOpen_meets ho'.1 ⟨rfl, rfl, fun _ _ => id, fun _ _ =>
    OrderedMap.find?_insert_of_free hnone⟩ (fun x hx => .inl hx) fun x hx => ?_)
    fun _ y _ hy => Meets.pure ?_
  · rcases OrderedMap.mem_insert hx with rfl | hx
    · exact .inr hfun
    · exact .inl hx
  · subst hy
    have hfound : (o'.unknownCallees.insert call v).find? call = some v := by
      simp [OrderedMap.find?_insert]
    exact ⟨⟨_, ⟨rfl, ho'.2⟩, hfound⟩, ⟨_, ⟨rfl, ho'.2⟩, hfound⟩, hfun⟩

/-- The functions that variables denote, in a larger session as well. -/
theorem reachableFunctions_eq {set : VarSet} (hs : s.WellFormed) (h : Holds set s)
    (hst : s.Extends t) : set.members.filterMap t.arena.reachableFunction? =
      set.members.filterMap s.arena.reachableFunction? :=
  List.filterMap_congr fun v hv => hs.arena.reachableFunction?_eq hst.arena (h v hv)

/-- What functions that are there return is there. -/
theorem return_lt {set : VarSet} {f : FunctionVariable} {v : VarId} (hs : s.WellFormed)
    (hf : f ∈ set.members.filterMap s.arena.reachableFunction?) (hv : v ∈ f.returns) :
    v < s.arena.size := by
  obtain ⟨w, -, hw⟩ := List.mem_filterMap.1 hf
  obtain ⟨x, hx⟩ := Arena.function?_of_reachableFunction? hw
  exact Arena.lt_of_isPointer ((hs.arena.slots hx List.mem_cons_self).isPointer hv)

/-! ## Declarations and expressions -/

/-- The relation admits what is made while things are denoted, and forgets nothing. -/
structure AdmitsDenoting (R : Frame) (u : TranslationUnit) : Prop where
  visits : ∀ {s t : Session}, s.WellFormed → R.rel s t → s.Visits t
  implicit : ∀ {s : Session} (func : DeclId), s.WellFormed → u.IsFunction func →
    u.prototypeOf func = .ok none → Recalls R (implicitPrototype u func) s Holds
  pointee : ∀ {s : Session} (v : VarId), s.WellFormed → v < s.arena.size →
    Recalls R (dereferenceOne v) s fun o t => ∀ d, o = some d → t.arena.isPointer d
  literal : ∀ {s : Session} (e : ExprId) (value : String), s.WellFormed →
    u.expr e = .ok (.stringLiteral value) →
    Recalls R (literalVariable u e value) s fun v t => t.arena.isPointer v
  unknown : ∀ {s : Session} (call : ExprId), s.WellFormed →
    Recalls R (unknownCallee u call) s fun v t => t.arena.isFunction v

section

variable {R : Frame} {u : TranslationUnit} (hR : AdmitsDenoting R u)

include hR

theorem storedFor_recalls_of (d : DeclId) (hs : s.WellFormed) :
    Recalls R (storedFor u d) s Holds := by
  refine Recalls.bind_get (fun w hw => ?_) (Recalls.bind_lift fun p _ => Recalls.pure ?_)
  · simp only [storedAt, (hR.visits hs hw).index]
  · exact fun v hv => hs.stored_lt hv

theorem storedParam_recalls (func : DeclId) (i : Nat) (hs : s.WellFormed) :
    Recalls R (storedParam u func i) s Holds := by
  refine Recalls.bind_lift fun d _ => ?_
  split
  · exact storedFor_recalls_of hR _ hs
  · exact Recalls.pure (.empty s)

theorem denoteFunction_recalls {func : DeclId} (hs : s.WellFormed) (hfunc : u.IsFunction func) :
    Recalls R (denoteFunction u func) s Holds := by
  refine Recalls.bind_lift fun declaration hdeclaration => ?_
  split
  · exact storedFor_recalls_of hR _ hs
  · exact hR.implicit func hs hfunc hdeclaration

/-- A parameter denotes the same ever after, for the signature that it may be a slot of is
remembered. -/
theorem denoteParam_recalls {owner : DeclId} (i : Nat) (view : Viewpoint) (hs : s.WellFormed)
    (howner : u.IsFunction owner) : Recalls R (denoteParam u owner i view) s Holds := by
  cases view with
  | body =>
    refine Recalls.bind_lift fun definition _ => ?_
    split
    · exact storedParam_recalls hR _ i hs
    · exact Recalls.bind_lift fun _ _ => Recalls.unresolved
  | declaration =>
    refine Recalls.bind_lift fun declaration hdeclaration => ?_
    split
    · exact storedParam_recalls hR _ i hs
    · refine Recalls.bind (hR.implicit owner hs howner hdeclaration) fun functions t hst hf => ?_
      have ht := (hR.visits hs hst).wellFormed hs
      exact Recalls.bind_get_pure (fun w htw => slotsOf_eq hf (hR.visits ht htw).toExtends i)
        (holds_slotsOf ht i functions)

/-- What a declaration denotes is never taken back. -/
theorem denoteDecl_recalls_of (id : DeclId) (view : Viewpoint) (hs : s.WellFormed) :
    Recalls R (denoteDecl u id view) s Holds := by
  refine Recalls.bind_requireOpen (fun w => hR.visits hs) (Recalls.bind_lift fun d hd => ?_)
  refine Recalls.bind_get (fun w hw => by rw [(hR.visits hs hw).index]) ?_
  split
  · exact Recalls.pure (.empty s)
  · split
    · next hfun => exact denoteFunction_recalls hR hs ⟨d, hd, hfun⟩
    · split
      · obtain ⟨o, ho, howner⟩ := TranslationUnit.parameterPosition_gives
          (TranslationUnit.lt_of_decl hd)
        rw [ho]
        rcases o with _ | ⟨owner, i⟩
        · exact Recalls.unresolved
        · exact denoteParam_recalls hR i view hs (howner owner i rfl)
      · refine Recalls.bind_get_pure (fun w hw => ?_) fun v hv => hs.stored_lt hv
        rw [storedAt, (hR.visits hs hw).index, storedAt]

theorem dereferenceAll_recalls {vs : List VarId} (hs : s.WellFormed)
    (hvs : ∀ v ∈ vs, v < s.arena.size) : Recalls R (dereferenceAll vs) s Holds := by
  induction vs generalizing s with
  | nil => exact Recalls.pure (.empty s)
  | cons v rest ih =>
    obtain ⟨hv, hrest⟩ := List.forall_mem_cons.1 hvs
    refine Recalls.bind (hR.pointee v hs hv) fun below t hst hbelow => ?_
    have hst := hR.visits hs hst
    have ht := hst.wellFormed hs
    have hrest : ∀ w ∈ rest, w < t.arena.size := fun w hw =>
      Nat.lt_of_lt_of_le (hrest w hw) hst.arena.size_le
    refine Recalls.bind (ih ht hrest) fun others w htw hothers => Recalls.pure ?_
    cases below with
    | none => exact hothers
    | some d =>
      intro x hx
      rcases (VarSet.mem_insert others d x).1 hx with rfl | hx
      · exact Arena.lt_of_isPointer ((hR.visits ht htw).arena.isPointer (hbelow _ rfl))
      · exact hothers x hx

theorem denoteCall_recalls (call : ExprId) (target : DeclId) (hs : s.WellFormed) :
    Recalls R (denoteCall u call target) s Holds := by
  refine Recalls.bind_lift fun d _ => ?_
  split
  · exact Recalls.unresolved
  · refine Recalls.bind (denoteDecl_recalls_of hR target .declaration hs)
      fun found t hst hfound => ?_
    have ht := (hR.visits hs hst).wellFormed hs
    refine Recalls.bind_get (fun w htw => ?_) ?_
    · simp only [reachableFunctions_eq ht hfound (hR.visits ht htw).toExtends]
    · dsimp only
      split
      · next f hf => exact Recalls.pure fun v hv => return_lt ht (List.mem_of_getLast? hf) hv
      · exact Recalls.bind (hR.unknown call ht) fun v w _ hv =>
          Recalls.pure (.singleton (Arena.lt_of_isFunction hv))

/-- What some callees return is there, if the callees are. -/
theorem returnsOf_recalls {callees : VarSet} (hs : s.WellFormed) (h : Holds callees s) :
    Recalls R (do return returnsOf (← get).arena callees) s Holds := by
  refine Recalls.bind_get_pure (fun w hw => ?_) fun v hv => ?_
  · unfold returnsOf
    rw [reachableFunctions_eq hs h (hR.visits hs hw).toExtends]
  · rw [returnsOf, VarSet.mem_ofList, List.mem_flatMap] at hv
    obtain ⟨f, hf, hv⟩ := hv
    exact return_lt hs hf hv

/-- What an expression denotes is never taken back: one case for each kind, each from what its
operands denote. -/
theorem denoteWithin_recalls_of (n : Nat) (e : ExprId) (view : Viewpoint) (hs : s.WellFormed) :
    Recalls R (denoteWithin u n e view) s Holds := by
  induction n generalizing s e view with
  | zero => exact Recalls.unresolved
  | succ n ih =>
    refine Recalls.bind_lift fun x hx => ?_
    cases x with
    | paren inner | implicitCast inner | bindTemporary inner => exact ih inner view hs
    | declRef d | member _ d => exact denoteDecl_recalls_of hR d view hs
    | binary _ lhs rhs =>
      refine Recalls.bind (ih lhs view hs) fun left t hst hleft => ?_
      have ht := (hR.visits hs hst).wellFormed hs
      refine Recalls.bind (ih rhs view ht) fun right w htw hright => ?_
      exact Recalls.pure ((hleft.extends (hR.visits ht htw).toExtends).union hright)
    | subscript base _ =>
      exact Recalls.bind (ih base view hs) fun set t hst hset =>
        dereferenceAll_recalls hR ((hR.visits hs hst).wellFormed hs) hset
    | unary op operand =>
      cases op with
      | deref =>
        refine Recalls.bind (ih operand view hs) fun set t hst hset => ?_
        have ht := (hR.visits hs hst).wellFormed hs
        refine Recalls.bind_get (fun w htw => ?_) ?_
        · rw [anyFunction_eq hset (hR.visits ht htw).toExtends]
        · split
          · exact Recalls.unresolved
          · exact dereferenceAll_recalls hR ht hset
      | addrOf | neg | not => exact ih operand view hs
    | call callee args =>
      refine Recalls.bind_lift fun target _ => ?_
      split
      · exact denoteCall_recalls hR e _ hs
      · exact Recalls.bind (ih callee .declaration hs) fun callees t hst hcallees =>
          returnsOf_recalls hR ((hR.visits hs hst).wellFormed hs) hcallees
    | conditional cond whenTrue whenFalse =>
      refine Recalls.bind (ih cond view hs) fun first t hst hfirst => ?_
      have ht := (hR.visits hs hst).wellFormed hs
      refine Recalls.bind (ih whenTrue view ht) fun second w htw hsecond => ?_
      have htw := hR.visits ht htw
      have hw := htw.wellFormed ht
      refine Recalls.bind (ih whenFalse view hw) fun third z hwz hthird => ?_
      have hboth := (hfirst.extends htw.toExtends).union hsecond
      exact Recalls.pure ((hboth.extends (hR.visits hw hwz).toExtends).union hthird)
    | stringLiteral value =>
      exact Recalls.bind (hR.literal e value hs hx) fun v t _ hv =>
        Recalls.pure (.singleton (Arena.lt_of_isPointer hv))
    | intLiteral _ | cast _ _ | sizeOf _ => exact Recalls.pure (.empty s)

theorem denote_recalls_of (e : ExprId) (view : Viewpoint) (hs : s.WellFormed) :
    Recalls R (denote u e view) s Holds :=
  Recalls.bind_requireOpen (fun _ => hR.visits hs) (denoteWithin_recalls_of hR _ e view hs)

end

theorem admitsDenoting_visits (u : TranslationUnit) : AdmitsDenoting .visits u where
  visits _ := id
  implicit func hs _ _ := (implicitPrototype_recalls u func hs).mono fun _ _ _ h => h.1
  pointee v hs _ := (dereferenceOne_recalls v hs).mono fun _ _ _ h => h.2
  literal e value hs _ := (literalVariable_recalls u e value hs).mono fun _ _ _ h => h.2
  unknown call hs := (unknownCallee_recalls u call hs).mono fun _ _ _ h => h.2

theorem storedFor_recalls (u : TranslationUnit) (d : DeclId) (hs : s.WellFormed) :
    Recalls .visits (storedFor u d) s Holds := storedFor_recalls_of (admitsDenoting_visits u) d hs

theorem denoteDecl_recalls (u : TranslationUnit) (id : DeclId) (view : Viewpoint)
    (hs : s.WellFormed) : Recalls .visits (denoteDecl u id view) s Holds :=
  denoteDecl_recalls_of (admitsDenoting_visits u) id view hs

theorem denoteWithin_recalls (u : TranslationUnit) (n : Nat) (e : ExprId) (view : Viewpoint)
    (hs : s.WellFormed) : Recalls .visits (denoteWithin u n e view) s Holds :=
  denoteWithin_recalls_of (admitsDenoting_visits u) n e view hs

/-- What an expression denotes is there, and it denotes the same as long as the unit is open. -/
theorem denote_recalls (u : TranslationUnit) (e : ExprId) (view : Viewpoint)
    (hs : s.WellFormed) : Recalls .visits (denote u e view) s Holds :=
  denote_recalls_of (admitsDenoting_visits u) e view hs

end Session

end CheckedPointers
