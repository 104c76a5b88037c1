import CheckedPointers.Proofs.Session.Origins
import CheckedPointers.Proofs.Variable.Coincidence

/-!
What the visit of one declarator puts at anchors, and what it bounds because a macro produced it.
The flag of a declarator is heard whenever it is visited: everything that then stands at its anchor
is bounded. The flag of a parameter is heard when the variable of its function is made, and only
then.
-/
namespace CheckedPointers

open Op

namespace CType

theorem not_isFunction_of_isPointer {ty : CType} (h : ty.isPointer ∨ ty.isArray) :
    ¬ ty.isFunction := by
  unfold isPointer isArray at h
  unfold isFunction
  rcases hty : ty.unaliased with _ | _ | _ | _ | _ | _ <;> simp [hty] at h ⊢

end CType

namespace TranslationUnit

def Lists (u : TranslationUnit) (d p : Decl) : Prop := ∃ id ∈ d.params, u.decl id = .ok p

end TranslationUnit

namespace Decl

variable {d : Decl} {arena arena' : Arena} {v : VarId}

/-- The variable is of the kind that the declared type asks for: a function for a function, a
pointer for a pointer or an array. -/
def Suits (d : Decl) (arena : Arena) (v : VarId) : Prop :=
  ∃ ty, d.ty? = some ty ∧
    (ty.isFunction ∧ arena.isFunction v ∨ (ty.isPointer ∨ ty.isArray) ∧ arena.isPointer v)

theorem Suits.grows (h : d.Suits arena v) (hg : arena.Grows arena') : d.Suits arena' v := by
  obtain ⟨ty, hty, h⟩ := h
  exact ⟨ty, hty, h.imp (.imp_right hg.isFunction) (.imp_right hg.isPointer)⟩

theorem Suits.of_grows (h : d.Suits arena' v) (hg : arena.Grows arena') (hv : v < arena.size) :
    d.Suits arena v := by
  obtain ⟨ty, hty, h⟩ := h
  refine ⟨ty, hty, h.imp (.imp_right fun h => ?_) (.imp_right fun h => ?_)⟩
  · rwa [hg.isFunction_eq hv] at h
  · rwa [Arena.isPointer, hg.pointer?_eq hv] at h

def AsksVariable (d : Decl) : Prop :=
  ∃ ty, d.ty? = some ty ∧ (ty.isFunction ∨ ty.isPointer ∨ ty.isArray)

theorem Suits.isFunction {ty : CType} (h : d.Suits arena v) (hty : d.ty? = some ty)
    (hfun : ty.isFunction) : arena.isFunction v := by
  obtain ⟨ty', hty', ⟨-, hv⟩ | ⟨hptr, -⟩⟩ := h
  · exact hv
  · obtain rfl := Option.some.inj (hty'.symm.trans hty)
    exact absurd hfun (CType.not_isFunction_of_isPointer hptr)

theorem Suits.isPointer {ty : CType} (h : d.Suits arena v) (hty : d.ty? = some ty)
    (hfun : ¬ ty.isFunction) : arena.isPointer v := by
  obtain ⟨ty', hty', ⟨h, -⟩ | ⟨-, hv⟩⟩ := h
  · obtain rfl := Option.some.inj (hty'.symm.trans hty)
    exact absurd h hfun
  · exact hv

/-- What suits a declaration is of one kind. -/
theorem Suits.of_suits {d' : Decl} {w : VarId} (hv : d.Suits arena v) (hw : d.Suits arena' w)
    (hv' : d'.Suits arena v) : d'.Suits arena' w := by
  obtain ⟨ty, hty, hv⟩ := hv
  obtain ⟨ty', hty', hv'⟩ := hv'
  rcases hv with ⟨hfun, hv⟩ | ⟨hptr, hv⟩
  · rcases hv' with ⟨hfun', -⟩ | ⟨-, hv'⟩
    · exact ⟨ty', hty', .inl ⟨hfun', hw.isFunction hty hfun⟩⟩
    · exact absurd hv (Arena.not_isFunction hv')
  · rcases hv' with ⟨-, hv'⟩ | ⟨hptr', -⟩
    · exact absurd hv' (Arena.not_isFunction hv)
    · have hno := CType.not_isFunction_of_isPointer hptr
      exact ⟨ty', hty', .inr ⟨hptr', hw.isPointer hty hno⟩⟩

theorem exists_ty_of_isDeclarator (h : d.isDeclarator) : ∃ ty, d.ty? = some ty := by
  unfold isDeclarator at h
  unfold ty?
  split at h <;> simp_all

theorem Suits.asksVariable (h : d.Suits arena v) : d.AsksVariable := by
  obtain ⟨ty, hty, h⟩ := h
  exact ⟨ty, hty, h.imp And.left And.left⟩

end Decl

namespace Session

variable {s t w : Session} {u : TranslationUnit} {id : DeclId} {d : Decl} {c : Category}
  {v : VarId} {P P' : Anchor → VarId → Prop}

theorem Bounded.extends (h : s.Bounded c v) (hst : s.Extends t) : t.Bounded c v :=
  Arena.All.imp h hst.arena fun _ ha => ha.grows hst.solver

/-! ## Putting variables at anchors -/

/-- Nothing is made or recorded, and variables are put at anchors. -/
structure Puts (s t : Session) (P : Anchor → VarId → Prop) : Prop where
  solver : t.solver = s.solver
  arena : t.arena = s.arena
  mem_storedAt : ∀ anchor v, v ∈ t.storedAt anchor ↔ v ∈ s.storedAt anchor ∨ P anchor v
  contains : ∀ anchor, t.index.contains anchor → s.index.contains anchor ∨ ∃ v, P anchor v

theorem Puts.trans (h : s.Puts t P) (h' : t.Puts w P') :
    s.Puts w fun anchor v => P anchor v ∨ P' anchor v where
  solver := h'.solver.trans h.solver
  arena := h'.arena.trans h.arena
  mem_storedAt anchor v := by rw [h'.mem_storedAt, h.mem_storedAt, or_assoc]
  contains anchor ha := by
    rw [exists_or, ← or_assoc]
    exact (h'.contains anchor ha).imp_left (h.contains anchor)

theorem Puts.congr (h : s.Puts t P) (hP : ∀ anchor v, P anchor v ↔ P' anchor v) :
    s.Puts t P' where
  __ := h
  mem_storedAt anchor v := by rw [h.mem_storedAt, hP]
  contains anchor ha := (h.contains anchor ha).imp_right fun ⟨v, hv⟩ => ⟨v, (hP anchor v).1 hv⟩

theorem Puts.of_index (hsolver : t.solver = s.solver) (harena : t.arena = s.arena)
    (hindex : t.index = s.index) : s.Puts t fun _ _ => False where
  solver := hsolver
  arena := harena
  mem_storedAt anchor v := by rw [storedAt, hindex, or_false, storedAt]
  contains anchor ha := .inl (hindex ▸ ha)

theorem Puts.bounded (h : s.Puts t P) (hv : s.Bounded c v) : t.Bounded c v := by
  unfold Bounded
  rwa [h.arena, h.solver]

theorem store_puts (anchor : Anchor) {set : VarSet} (hset : ∃ v, v ∈ set) (s : Session) :
    Meets .any (store anchor set) s fun _ t => s.Puts t fun a v => a = anchor ∧ v ∈ set := by
  refine Meets.modify trivial ⟨rfl, rfl, fun a v => mem_storedAt_insert s anchor a set v,
    fun a ha => ?_⟩
  unfold OrderedMap.contains at ha ⊢
  rw [OrderedMap.find?_insert] at ha
  split at ha
  · next hanchor =>
    obtain ⟨v, hv⟩ := hset
    exact .inr ⟨v, hanchor, hv⟩
  · exact .inl ha

/-- All slots are put where their parameters are declared. -/
theorem storeSlots_puts (u : TranslationUnit) {slots : List (DeclId × VarSet)}
    (hslots : ∀ e ∈ slots, ∃ v, v ∈ e.2) (s : Session) :
    Meets .any (storeSlots u slots) s fun _ t => s.Puts t fun a v =>
      ∃ e ∈ slots, ∃ p, u.decl e.1 = .ok p ∧ p.anchor = a ∧ v ∈ e.2 := by
  induction slots generalizing s with
  | nil => exact Meets.pure ((Puts.of_index rfl rfl rfl).congr (by simp))
  | cons e rest ih =>
    obtain ⟨he, hrest⟩ := List.forall_mem_cons.1 hslots
    refine Meets.bind_lift fun p hp => Meets.bind (store_puts p.anchor he s) fun _ t _ hst => ?_
    refine (ih hrest t).mono fun _ w _ htw => (hst.trans htw).congr fun a v => ?_
    simp [hp, eq_comm (a := a)]

def PutsSlots (u : TranslationUnit) (d : Decl) (f : FunctionVariable) (a : Anchor) (v : VarId) :
    Prop :=
  ∃ e ∈ d.params.zip f.params, ∃ p, u.decl e.1 = .ok p ∧ p.anchor = a ∧ v ∈ e.2

/-- Recording a function puts its slots at the anchors of its parameters. -/
theorem recordFunction_puts {f : FunctionVariable} (hd : u.decl id = .ok d)
    (hf : s.arena.function? v = some f) (hslots : ∀ e ∈ d.params.zip f.params, ∃ x, x ∈ e.2) :
    Meets .any (recordFunction u id v) s fun _ t => s.Puts t (PutsSlots u d f) := by
  have hstore : ∀ t : Session, (s.Puts t fun _ _ => False) → Meets .any (do
      let slots := (((← get).arena.function? v).map FunctionVariable.params).getD []
      storeSlots u (d.params.zip slots)) t fun _ w => s.Puts w (PutsSlots u d f) := by
    intro t hst
    refine Meets.bind_get ?_
    rw [hst.arena, hf]
    refine (storeSlots_puts u hslots t).mono fun _ w _ htw => (hst.trans htw).congr fun a x => ?_
    exact iff_of_eq (false_or _)
  have hupdate : ∀ (t : Session) (g : Pairing → Pairing), (s.Puts t fun _ _ => False) →
      Meets .any (updatePairing g) t fun _ w => s.Puts w fun _ _ => False := fun t g hst =>
    Meets.modify trivial ⟨hst.solver, hst.arena, hst.mem_storedAt, hst.contains⟩
  have hnothing : s.Puts s fun _ _ => False := .of_index rfl rfl rfl
  rw [recordFunction, hd, lift_ok_bind]
  dsimp only
  split
  · refine Meets.bind (hupdate s _ hnothing) fun _ t _ hst => Meets.bind_lift fun prototype _ => ?_
    split
    · exact Meets.bind_lift fun key _ => Meets.bind (hupdate t _ hst) fun _ w _ => hstore w
    · exact hstore t hst
  · exact Meets.bind (hupdate s _ hnothing) fun _ t _ => hstore t

/-! ## Making variables -/

/-- The slot of a parameter holds one pointer, bounded if a macro produced the parameter. -/
def SlotOf (u : TranslationUnit) (s : Session) (id : DeclId) (slot : VarSet) : Prop :=
  ∃ x, slot = .singleton x ∧ s.arena.isPointer x ∧
    ∀ p, u.decl id = .ok p → p.inMacro → s.Bounded .leastSafe x

theorem SlotOf.extends {slot : VarSet} (h : SlotOf u s id slot) (hst : s.Extends t) :
    SlotOf u t id slot := by
  obtain ⟨x, hslot, hx, hbound⟩ := h
  exact ⟨x, hslot, hst.arena.isPointer hx, fun p hp hflagged => (hbound p hp hflagged).extends hst⟩

theorem SlotOf.puts {slot : VarSet} (h : SlotOf u s id slot) (hst : s.Puts t P) :
    SlotOf u t id slot := by
  obtain ⟨x, hslot, hx, hbound⟩ := h
  exact ⟨x, hslot, hst.arena ▸ hx, fun p hp hflagged => hst.bounded (hbound p hp hflagged)⟩

/-- A parameter that a macro produced is bounded at once. -/
theorem newParameter_bounds (u : TranslationUnit) (id : DeclId) (s : Session) :
    Meets .creates (newParameter u id) s fun v t => SlotOf u t id (.singleton v) := by
  refine Meets.bind_lift fun p hp => ?_
  refine Meets.bind (newPointer_meets _ _ _ s) fun v t _ hv => ?_
  have hsame : ∀ p', u.decl id = .ok p' → p' = p := fun p' hp' => Except.ok.inj (hp'.symm.trans hp)
  split
  · refine Meets.bind (P := fun _ w => w.Bounded .leastSafe v)
      (Meets.discard (boundBelow_meets v .leastSafe t).to_creates)
      fun _ w (htw : t.Creates w) hbound => Meets.pure ?_
    exact ⟨v, rfl, htw.arena.isPointer hv, fun _ _ _ => hbound⟩
  · next hflagged =>
    refine Meets.pure ⟨v, rfl, hv, fun p' hp' hflag => absurd ?_ hflagged⟩
    simp [Decl.isRewritable, ← hsame p' hp', hflag]

theorem newParameters_bound (u : TranslationUnit) (ids : List DeclId) (s : Session) :
    Meets .creates (newParameters u ids) s fun slots t => List.Forall₂ (SlotOf u t) ids slots := by
  induction ids generalizing s with
  | nil => exact Meets.pure .nil
  | cons id rest ih =>
    refine Meets.bind (newParameter_bounds u id s) fun v t _ hv => ?_
    refine Meets.bind (ih t) fun slots w (htw : t.Creates w) hslots => Meets.pure ?_
    exact .cons (hv.extends htw.toExtends) hslots

theorem newFunction_bounds (hd : u.decl id = .ok d) (s : Session) :
    Meets .creates (newFunction u id) s fun v t => d.isFunction ∧ ∃ f,
      t.arena.function? v = some f ∧ List.Forall₂ (SlotOf u t) d.params f.params := by
  rw [newFunction, hd, lift_ok_bind]
  split
  · next params _ _ hkind =>
    have hparams : d.params = params := by rw [Decl.params, hkind]
    refine Meets.bind (newPointer_meets _ _ _ s) fun r t _ hr => ?_
    refine Meets.bind ((newParameters_bound u params t).both (newParameters_meets u params t))
      fun slots w (htw : t.Creates w) ⟨hslots, _, hpointers⟩ => ?_
    refine (allocate_function_meets (htw.arena.isPointer hr) hpointers).mono
      fun v z (hwz : w.Creates z) hv => ⟨by rw [Decl.isFunction, hkind], _, hv, ?_⟩
    rw [hparams]
    exact hslots.imp fun _ _ h => h.extends hwz.toExtends
  · exact Meets.fault

/-! ## Giving variables -/

def Vacant (s : Session) (anchor : Anchor) : Prop :=
  ∀ w ∈ s.storedAt anchor, ¬ s.arena.isFunction w

structure PutsFunction (u : TranslationUnit) (id : DeclId) (d : Decl) (s t : Session) : Prop where
  isFunction : d.isFunction
  vacant : s.Vacant d.anchor
  puts : ∃ v f made, (newFunction u id).Ends s v made ∧ s.Creates made ∧
    made.arena.function? v = some f ∧ List.Forall₂ (SlotOf u made) d.params f.params ∧
    made.Puts t fun a x => a = d.anchor ∧ x = v ∨ PutsSlots u d f a x

/-- A function is put at its anchor, with its slots, unless the anchor has one. -/
theorem giveFunction_puts (hd : u.decl id = .ok d) (ty : CType) (s : Session) :
    Meets .any (giveFunction u id d ty) s fun _ t =>
      t = s ∧ (ty.isFunction → ¬ s.Vacant d.anchor) ∨
        ty.isFunction ∧ PutsFunction u id d s t := by
  refine Meets.bind_get ?_
  split
  · next hnone =>
    simp only [Bool.and_eq_true, Bool.not_eq_true', List.any_eq_false] at hnone
    refine Meets.bind ((newFunction_bounds hd s).frame.run.widen fun _ _ => trivial)
      fun v t _ ⟨hends, hst, hisfun, f, hf, hslots⟩ => ?_
    have hfilled : ∀ e ∈ d.params.zip f.params, ∃ x, x ∈ e.2 := fun e he => by
      obtain ⟨x, hslot, -⟩ := List.forall₂_zip hslots he
      exact ⟨x, hslot ▸ (VarSet.mem_singleton x x).2 rfl⟩
    refine Meets.bind (store_puts d.anchor ⟨v, (VarSet.mem_singleton v v).2 rfl⟩ t)
      fun _ w _ htw => ?_
    refine Meets.bind (recordFunction_puts hd (htw.arena ▸ hf) hfilled)
      fun _ z _ hwz => Meets.pure ?_
    refine .inr ⟨hnone.1, hisfun, hnone.2, v, f, t, hends, hst, hf, hslots,
      (htw.trans hwz).congr ?_⟩
    exact fun a x => or_congr_left (and_congr_right fun _ => VarSet.mem_singleton v x)
  · next hsome =>
    refine Meets.pure (.inl ⟨rfl, fun hty hvacant => hsome ?_⟩)
    simp only [hty, Bool.true_and, Bool.not_eq_true', List.any_eq_false]
    exact hvacant

structure PutsPointer (d : Decl) (ty : CType) (s t : Session) : Prop where
  isPointer : ty.isPointer ∨ ty.isArray
  free : ∀ w ∈ s.storedAt d.anchor, ¬ s.arena.isPointer w
  puts : ∃ v made, (newPointer ty d.name d.itype?).Ends s v made ∧ s.Creates made ∧
    made.arena.isPointer v ∧ made.Puts t fun a x => a = d.anchor ∧ x = v

/-- A pointer is put at its anchor unless the anchor has one. -/
theorem givePointer_puts (d : Decl) (ty : CType) (s : Session) :
    Meets .any (givePointer d ty) s fun _ t =>
      t = s ∧ (ty.isPointer ∨ ty.isArray → ∃ v ∈ s.storedAt d.anchor, s.arena.isPointer v) ∨
        PutsPointer d ty s t := by
  refine Meets.bind_get ?_
  split
  · next hnone =>
    simp only [Bool.and_eq_true, Bool.or_eq_true, Bool.not_eq_true', List.any_eq_false] at hnone
    refine Meets.bind ((newPointer_meets ty d.name d.itype? s).frame.run.widen fun _ _ => trivial)
      fun v t _ ⟨hends, hst, hv⟩ => ?_
    refine Meets.bind (store_puts d.anchor ⟨v, (VarSet.mem_singleton v v).2 rfl⟩ t)
      fun _ w _ htw => Meets.pure ?_
    refine .inr ⟨hnone.1, hnone.2, v, t, hends, hst, hv, htw.congr fun a x => ?_⟩
    exact and_congr_right fun _ => VarSet.mem_singleton v x
  · next hsome =>
    refine Meets.pure (.inl ⟨rfl, fun hty => ?_⟩)
    simp only [hty, Bool.and_eq_true, Bool.or_eq_true, Bool.not_eq_true', List.any_eq_false,
      true_and, not_forall, not_not] at hsome
    obtain ⟨v, hv, hptr⟩ := hsome
    exact ⟨v, hv, hptr⟩

/-- How a variable comes to stand at an anchor when a declarator is visited. -/
inductive Placed (u : TranslationUnit) (d : Decl) (s t : Session) (anchor : Anchor) (v : VarId) :
    Prop where
  /-- It is that of the declarator, and nothing of its kind stood there. -/
  | declared (hdecl : d.isDeclarator) (hanchor : anchor = d.anchor) (suits : d.Suits t.arena v)
      (function : t.arena.isFunction v → d.isFunction)
      (first : ∀ w ∈ s.storedAt anchor, ¬ d.Suits s.arena w)
  /-- It stands in the slot of a parameter of the function that is made. -/
  | listed (p : Decl) (hfun : d.isFunction) (vacant : s.Vacant d.anchor) (lists : u.Lists d p)
      (hanchor : anchor = p.anchor) (pointer : t.arena.isPointer v)
      (bounded : p.inMacro → t.Bounded .leastSafe v)

/-- What stands at anchors once a declarator has its variables. -/
structure Seats (u : TranslationUnit) (d : Decl) (s t : Session) : Prop where
  placed : ∀ anchor, ∀ v ∈ t.storedAt anchor, v ∈ s.storedAt anchor ∨ Placed u d s t anchor v
  /-- A variable of its kind stands where it does. -/
  stands : d.isDeclarator → d.AsksVariable → ∃ v ∈ t.storedAt d.anchor, d.Suits t.arena v
  /-- If its function variable is made, the parameters stand where they are declared. -/
  slots : d.isFunction → s.Vacant d.anchor → ∃ v ∈ t.storedAt d.anchor, ∃ f,
    t.arena.function? v = some f ∧ List.Forall₂ (SlotOf u t) d.params f.params ∧
      ∀ e ∈ d.params.zip f.params, ∀ p, u.decl e.1 = .ok p → ∀ x ∈ e.2, x ∈ t.storedAt p.anchor

/-- A function that was put somewhere seats itself and its parameters. -/
theorem PutsFunction.seats {ty : CType} (h : PutsFunction u id d s t) (hty : d.ty? = some ty)
    (hfun : ty.isFunction) : Seats u d s t := by
  obtain ⟨v, f, made, -, hmade, hf, hslots, hputs⟩ := h.puts
  have hvfun : t.arena.isFunction v := by
    rw [hputs.arena]
    exact Arena.isFunction_iff.2 ⟨f, hf⟩
  have hv : v ∈ t.storedAt d.anchor := (hputs.mem_storedAt _ v).2 (.inr (.inl ⟨rfl, rfl⟩))
  have hslots : List.Forall₂ (SlotOf u t) d.params f.params :=
    hslots.imp fun _ _ hslot => hslot.puts hputs
  refine ⟨fun a x hx => ?_, fun _ _ => ⟨v, hv, ty, hty, .inl ⟨hfun, hvfun⟩⟩, fun _ _ => ?_⟩
  · rcases (hputs.mem_storedAt a x).1 hx with hold | ⟨rfl, rfl⟩ | ⟨e, he, p, hp, rfl, hxe⟩
    · rw [storedAt, hmade.only] at hold
      exact .inl hold
    · refine .inr (.declared (Decl.isDeclarator_of_isFunction h.isFunction).1 rfl
        ⟨ty, hty, .inl ⟨hfun, hvfun⟩⟩ (fun _ => h.isFunction) fun w hw hsuits => ?_)
      exact h.vacant w hw (hsuits.isFunction hty hfun)
    · obtain ⟨y, hslot, hy, hbound⟩ := (List.forall₂_iff_zip.1 hslots).2 he
      rw [hslot, VarSet.mem_singleton] at hxe
      subst hxe
      exact .inr (.listed p h.isFunction h.vacant ⟨e.1, (List.of_mem_zip he).1, hp⟩ rfl hy
        (hbound p hp))
  · refine ⟨v, hv, f, by rw [hputs.arena, hf], hslots, fun e he p hp x hx => ?_⟩
    exact (hputs.mem_storedAt _ x).2 (.inr (.inr ⟨e, he, p, hp, rfl, hx⟩))

/-- A declarator whose function stands already changes nothing. -/
theorem seats_refl (hstands : d.isDeclarator → d.AsksVariable →
    ∃ v ∈ s.storedAt d.anchor, d.Suits s.arena v) (hfun : d.isFunction → ¬ s.Vacant d.anchor) :
    Seats u d s s :=
  ⟨fun _ _ => .inl, hstands, fun h hvacant => absurd hvacant (hfun h)⟩

/-- A pointer that was put somewhere seats itself. -/
theorem PutsPointer.seats {ty : CType} (h : PutsPointer d ty s t) (hty : d.ty? = some ty)
    (hdecl : d.isDeclarator) : Seats u d s t := by
  obtain ⟨v, made, -, hmade, hv, hputs⟩ := h.puts
  have hsuits : d.Suits t.arena v := ⟨ty, hty, .inr ⟨h.isPointer, hputs.arena ▸ hv⟩⟩
  have hno : ¬ ty.isFunction := CType.not_isFunction_of_isPointer h.isPointer
  refine ⟨fun a x hx => ?_, fun _ _ => ⟨v, ?_, hsuits⟩, fun hfun => ?_⟩
  · rcases (hputs.mem_storedAt a x).1 hx with hold | ⟨rfl, rfl⟩
    · rw [storedAt, hmade.only] at hold
      exact .inl hold
    · refine .inr (.declared hdecl rfl hsuits (fun hxfun => ?_) fun w hw hw' => ?_)
      · exact absurd hxfun (Arena.not_isFunction (hsuits.isPointer hty hno))
      · exact h.free w hw (hw'.isPointer hty hno)
  · exact (hputs.mem_storedAt _ v).2 (.inr ⟨rfl, rfl⟩)
  · exact absurd (Decl.ty_isFunction_of_isFunction hfun hty) hno

/-- A declarator is of one kind, so that at most one of the two variables is made. -/
theorem seats_of_puts {ty : CType} (hty : d.ty? = some ty) (hdecl : d.isDeclarator)
    (hfunction : t = s ∧ (ty.isFunction → ¬ s.Vacant d.anchor) ∨
      ty.isFunction ∧ PutsFunction u id d s t)
    (hpointer : w = t ∧ (ty.isPointer ∨ ty.isArray →
        ∃ v ∈ t.storedAt d.anchor, t.arena.isPointer v) ∨ PutsPointer d ty t w) :
    Seats u d s w := by
  by_cases hfun : ty.isFunction
  · obtain rfl : w = t := by
      rcases hpointer with ⟨h, -⟩ | h
      · exact h
      · exact absurd hfun (CType.not_isFunction_of_isPointer h.isPointer)
    rcases hfunction with ⟨rfl, hstands⟩ | ⟨-, hputs⟩
    · have hno := hstands hfun
      simp only [Vacant, not_forall, not_not] at hno
      obtain ⟨v, hv, hvfun⟩ := hno
      exact seats_refl (fun _ _ => ⟨v, hv, ty, hty, .inl ⟨hfun, hvfun⟩⟩) fun _ => hstands hfun
    · exact hputs.seats hty hfun
  · obtain rfl : t = s := by
      rcases hfunction with ⟨h, -⟩ | ⟨h, -⟩
      · exact h
      · exact absurd h hfun
    have hnofun : ¬ d.isFunction := fun h => hfun (Decl.ty_isFunction_of_isFunction h hty)
    rcases hpointer with ⟨rfl, hstands⟩ | hputs
    · refine seats_refl (fun _ ⟨ty', hty', hasks⟩ => ?_) fun h => absurd h hnofun
      obtain rfl := Option.some.inj (hty'.symm.trans hty)
      have hptr := hasks.resolve_left hfun
      obtain ⟨v, hv, hvptr⟩ := hstands hptr
      exact ⟨v, hv, ty', hty, .inr ⟨hptr, hvptr⟩⟩
    · exact hputs.seats hty hdecl

structure Placement (u : TranslationUnit) (d : Decl) (s t : Session) : Prop
    extends Seats u d s t where
  indexes : s.Indexes t
  /-- If a macro produced it, all that stands where it does is bounded. -/
  forced : d.isDeclarator → d.inMacro → ∀ v ∈ t.storedAt d.anchor, t.Bounded .leastSafe v

/-- Further constraints leave everything in its seat. -/
theorem Seats.records (h : Seats u d s t) (htw : t.Records w) : Seats u d s w := by
  have hstored : ∀ anchor, w.storedAt anchor = t.storedAt anchor := fun anchor => by
    rw [storedAt, htw.only, storedAt]
  refine ⟨fun a v hv => ?_, fun hdecl hasks => ?_, fun hfun hvacant => ?_⟩
  · rw [hstored] at hv
    refine (h.placed a v hv).imp_right fun hplaced => ?_
    cases hplaced with
    | declared hdecl hanchor suits function first =>
      exact .declared hdecl hanchor (htw.arena ▸ suits) (htw.arena ▸ function) first
    | listed p hfun vacant lists hanchor pointer bounded =>
      exact .listed p hfun vacant lists hanchor (htw.arena ▸ pointer)
        fun hflagged => (bounded hflagged).records htw
  · rw [hstored, htw.arena]
    exact h.stands hdecl hasks
  · obtain ⟨v, hv, f, hf, hslots, hplaces⟩ := h.slots hfun hvacant
    refine ⟨v, hstored d.anchor ▸ hv, f, htw.arena ▸ hf,
      hslots.imp fun _ _ hslot => hslot.extends htw.creates.toExtends, fun e he p hp x hx => ?_⟩
    rw [hstored]
    exact hplaces e he p hp x hx

/-- The visit of a declarator puts variables where it should, bounded if a macro produced it. -/
theorem giveVariables_places (hd : u.decl id = .ok d) (hs : s.WellFormed) :
    Meets .indexes (giveVariables u id) s fun _ t => Placement u d s t := by
  suffices hforces : Meets .any (giveVariables u id) s fun _ t => Seats u d s t ∧
      (d.isDeclarator → d.inMacro → ∀ v ∈ t.storedAt d.anchor, t.Bounded .leastSafe v) from
    ((giveVariables_meets u id hs).any.frame.both hforces).mono
      fun _ t _ ⟨⟨hst, _⟩, _, hseats, hforced⟩ => ⟨hseats, hst, hforced⟩
  refine Meets.bind_requireOpen fun _ _ => ?_
  rw [hd, lift_ok_bind]
  split
  · next ty hdecl hty =>
    refine Meets.bind (giveFunction_puts hd ty s) fun _ t _ hfunction => ?_
    refine Meets.bind (givePointer_puts d ty t) fun _ w _ hpointer => ?_
    have hseats := seats_of_puts hty hdecl hfunction hpointer
    dsimp only
    split
    · refine Meets.bind_get ?_
      split
      · next set hset =>
        refine Meets.bind ((Meets.discard (Q := fun _ z => ∀ v ∈ set, z.Bounded .leastSafe v)
          (boundSet_meets set .leastSafe w)).frame.widen fun _ _ => trivial) fun _ z _ h => ?_
        obtain ⟨hwz, hbound⟩ := h
        refine Meets.pure ⟨hseats.records hwz, fun _ _ v hv => hbound v ?_⟩
        rw [storedAt, hwz.only] at hv
        simpa [hset] using hv
      · next hnone =>
        refine Meets.pure ⟨hseats, fun _ _ v hv => ?_⟩
        rw [storedAt, hnone] at hv
        exact absurd hv (VarSet.not_mem_empty v)
    · next hflagged =>
      refine Meets.pure ⟨hseats, fun _ h => absurd ?_ hflagged⟩
      simp [Decl.isRewritable, h]
  · next hno =>
    have hnodecl : ¬ d.isDeclarator := fun hdecl => by
      obtain ⟨ty, hty⟩ := Decl.exists_ty_of_isDeclarator hdecl
      exact hno ty hdecl hty
    refine Meets.pure ⟨seats_refl (fun h => absurd h hnodecl) fun h => ?_,
      fun h => absurd h hnodecl⟩
    exact absurd (Decl.isDeclarator_of_isFunction h).1 hnodecl

end Session

end CheckedPointers
