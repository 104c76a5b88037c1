import CheckedPointers.Proofs.Session.Failure
import CheckedPointers.Proofs.Session.Staying
import CheckedPointers.Proofs.Session.Steps
import CheckedPointers.Proofs.Source.Depth

/-!
Closed units are indexed and followed to the end. An expression may nest too deeply or have a shape
that cannot be interpreted; then its statement is given up. Nothing else fails, except that a
declarator of function type has to be a function declaration.
-/
namespace CheckedPointers

open Op TranslationUnit

/-- A declarator whose type is a function type, but that is no function declaration. -/
def Decl.HidesFunction (d : Decl) : Prop :=
  d.isDeclarator ∧ ¬ d.isFunction ∧ ∃ ty, d.ty? = some ty ∧ ty.isFunction

def TranslationUnit.Hides (u : TranslationUnit) (name : String) : Prop :=
  ∃ ids, u.declarators = .ok ids ∧ ∃ id ∈ ids, ∃ d, u.decl id = .ok d ∧ d.HidesFunction ∧
    d.name = name

def Frame.sameUnit : Frame :=
  ⟨fun s t => t.opened = s.opened, fun _ => rfl, fun h h' => h'.trans h⟩

namespace Op

variable {α β : Type} {s : Session} {x : Op α} {f : α → Op β} {may : Failure → Prop}
  {u : TranslationUnit} {o : OpenUnit}

theorem FailsOnly.bind_ends {a : α} {t : Session} (hx : x.Ends s a t)
    (hf : FailsOnly may (f a) t) : FailsOnly may (x >>= f) s :=
  (FailsOnly.of_ends hx).bind fun b w h => by
    obtain ⟨rfl, rfl⟩ := hx.unique h
    exact hf

theorem FailsOnly.bind_modify {g : Session → Session} {f : PUnit → Op β}
    (h : FailsOnly may (f ⟨⟩) (g s)) : FailsOnly may (modify g >>= f) s := ⟨h.of_error⟩

theorem FailsOnly.bind_requireOpen {f : PUnit → Op β} (ho : IsOpen u o s)
    (hf : FailsOnly may (f ⟨⟩) s) : FailsOnly may (Session.requireOpen u >>= f) s :=
  FailsOnly.bind_ends (ends_bind.2 ⟨o, s, ends_current ho, ends_pure.2 ⟨rfl, rfl⟩⟩) hf

theorem FailsOnly.bind_current {f : OpenUnit → Op β} (ho : IsOpen u o s)
    (hf : FailsOnly may (f o) s) : FailsOnly may (Session.current u >>= f) s :=
  FailsOnly.bind_ends (ends_current ho) hf

end Op

namespace Session

variable {s t : Session} {may : Failure → Prop} {u : TranslationUnit}

structure Ready (u : TranslationUnit) (s : Session) : Prop where
  wellFormed : s.WellFormed
  isOpen : ∃ o, IsOpen u o s

theorem Ready.visits (h : Ready u s) (hst : s.Visits t) : Ready u t := by
  obtain ⟨o, ho⟩ := h.isOpen
  obtain ⟨o', ho', -⟩ := ho.visits hst
  exact ⟨hst.wellFormed h.wellFormed, o', ho'⟩

theorem Ready.indexes (h : Ready u s) (hst : s.Indexes t) (hopened : t.opened = s.opened) :
    Ready u t := by
  obtain ⟨o, ho, hsame⟩ := h.isOpen
  exact ⟨hst.wellFormed h.wellFormed, o, hopened.trans ho, hsame⟩

/-! ## Indexing -/

theorem sameUnit_admits : Frame.sameUnit.AdmitsIndexing where
  creates _ _ _ := rfl
  stores _ _ := rfl
  pairs _ _ := rfl
  externs _ _ := rfl
  globals _ _ := rfl

theorem storeSlots_failsOnly {slots : List (DeclId × VarSet)}
    (h : ∀ e ∈ slots, e.1 < u.decls.size) : FailsOnly may (storeSlots u slots) s := by
  induction slots generalizing s with
  | nil => exact .pure
  | cons e rest ih =>
    apply FailsOnly.bind_gives (decl_gives (h e List.mem_cons_self))
    intro d _ _
    exact FailsOnly.bind_modify (ih fun e' he' => h e' (List.mem_cons_of_mem e he'))

theorem recordFunction_failsOnly (hu : u.Closed) {func : DeclId} {v : VarId}
    (hfunc : func < u.decls.size) : FailsOnly may (recordFunction u func v) s := by
  apply FailsOnly.bind_gives (decl_gives hfunc)
  intro d hd _
  have hrest : ∀ t, FailsOnly may (do
      let slots := (((← get).arena.function? v).map FunctionVariable.params).getD []
      storeSlots u (d.params.zip slots)) t := fun t => by
    apply FailsOnly.bind_get
    exact storeSlots_failsOnly fun e he => hu.param_lt hd (List.of_mem_zip he).1
  dsimp only
  split
  · apply FailsOnly.bind_modify
    apply FailsOnly.bind_gives (prototypeOf_gives hfunc)
    intro o _ ho
    split
    · apply FailsOnly.bind_gives (keyOf_gives (ho _ rfl).lt)
      exact fun key _ _ => FailsOnly.bind_modify (hrest _)
    · exact hrest _
  · exact FailsOnly.bind_modify (hrest _)

/-- A function is given its variable unless the declarator hides one. -/
theorem giveFunction_failsOnly (hu : u.Closed) (hs : s.WellFormed) {func : DeclId} {d : Decl}
    {ty : CType} (hd : u.decl func = .ok d)
    (hmay : ty.isFunction → ¬ d.isFunction → may (.fault (.notAFunction d.name))) :
    FailsOnly may (giveFunction u func d ty) s := by
  have hfunc := lt_of_decl hd
  apply FailsOnly.bind_get
  split
  · next hnone =>
    have hnew : FailsOnly may (newFunction u func) s := by
      apply newFunction_failsOnly (fun _ hd _ => hu.param_lt hd) hs hfunc
      intro d' hd'
      obtain rfl := Except.ok.inj (hd'.symm.trans hd)
      exact hmay (Bool.and_eq_true_iff.1 hnone).1
    apply hnew.bind
    intro v t _
    apply FailsOnly.bind_modify
    exact (recordFunction_failsOnly hu hfunc).bind fun _ _ _ => .pure
  · exact .pure

theorem givePointer_failsOnly (d : Decl) (ty : CType) : FailsOnly may (givePointer d ty) s := by
  apply FailsOnly.bind_get
  split
  · apply (newPointer_failsOnly ty d.name d.itype?).bind
    exact fun v t _ => FailsOnly.bind_modify .pure
  · exact .pure

/-- A declarator gets its variables unless it hides a function. -/
theorem giveVariables_failsOnly (hu : u.Closed) (hr : Ready u s) {id : DeclId}
    (hid : id < u.decls.size)
    (hmay : ∀ d, u.decl id = .ok d → d.HidesFunction → may (.fault (.notAFunction d.name))) :
    FailsOnly may (giveVariables u id) s := by
  obtain ⟨o, ho⟩ := hr.isOpen
  apply FailsOnly.bind_requireOpen ho
  apply FailsOnly.bind_gives (decl_gives hid)
  intro d hd _
  split
  · next ty hdeclarator hty =>
    apply FailsOnly.bind_meets (giveFunction_failsOnly hu hr.wellFormed hd fun hfun hnot =>
      hmay d hd ⟨hdeclarator, hnot, ty, hty, hfun⟩) (giveFunction_meets u id d ty hr.wellFormed)
    intro _ t (hst : s.Indexes t) _
    have ht := hst.wellFormed hr.wellFormed
    apply (givePointer_failsOnly d ty).bind_meets (givePointer_meets d ty ht)
    intro _ w (htw : t.Indexes w) _
    have hw := htw.wellFormed ht
    dsimp only
    split
    · apply FailsOnly.bind_get
      split
      · next set hset =>
        have hholds : Holds set w := hw.index _ (OrderedMap.mem_of_find? hset)
        exact (boundSet_failsOnly hw hholds).discard.bind fun _ _ _ => .pure
      · exact .pure
    · exact .pure
  · exact .pure

theorem noteFunction_failsOnly (hr : Ready u s) {func : DeclId} (hfunc : func < u.decls.size) :
    FailsOnly may (noteFunction u func) s := by
  obtain ⟨o, ho⟩ := hr.isOpen
  apply FailsOnly.bind_requireOpen ho
  apply FailsOnly.bind_gives (decl_gives hfunc)
  intro d _ _
  split
  · apply FailsOnly.bind_modify
    apply FailsOnly.bind_get
    dsimp only
    split
    · exact .of_ends rfl
    · exact .pure
  · exact .pure

/-- All declarators do, for each of them is there. -/
theorem indexAll_failsOnly (hu : u.Closed) (hr : Ready u s) {ids : List DeclId}
    (hids : ∀ id ∈ ids, id < u.decls.size)
    (hmay : ∀ id ∈ ids, ∀ d, u.decl id = .ok d → d.HidesFunction →
      may (.fault (.notAFunction d.name))) : FailsOnly may (indexAll u ids) s := by
  induction ids generalizing s with
  | nil => exact .pure
  | cons id rest ih =>
    have hid := hids id List.mem_cons_self
    have hgive := giveVariables_failsOnly hu hr hid (hmay id List.mem_cons_self)
    apply hgive.bind
    intro made t ht
    have hst : s.Indexes t := ((giveVariables_meets u id hr.wellFormed).of_ends ht).1
    have hrt := hr.indexes hst ((giveVariables_stays sameUnit_admits id s).of_ends ht).1
    have hrest : ∀ w, Ready u w → FailsOnly may (do
        let others ← indexAll u rest
        return if made then id :: others else others) w := fun w hw =>
      (ih hw (fun d hd => hids d (List.mem_cons_of_mem id hd))
        fun d hd => hmay d (List.mem_cons_of_mem id hd)).bind fun _ _ _ => .pure
    apply FailsOnly.bind_gives (decl_gives hid)
    intro d _ _
    dsimp only
    split
    · apply (noteFunction_failsOnly hrt hid).bind
      intro _ w hw
      have htw : t.Indexes w := ((noteFunction_meets u id t).of_ends hw).1
      exact hrest w (hrt.indexes htw ((noteFunction_stays sameUnit_admits id t).of_ends hw).1)
    · exact hrest t hrt

theorem enter_failsOnly (u : TranslationUnit) (h : s.opened = none) :
    FailsOnly may (enter u) s := by
  apply FailsOnly.bind_get
  rw [h]
  exact .of_ends rfl

theorem Ready.of_enter (hs : s.WellFormed) (h : (enter u).Ends s ⟨⟩ t) : Ready u t := by
  obtain ⟨hst, ht⟩ := (enter_meets u s).of_ends h
  have hst : s.Follows t := hst
  exact ⟨hst.wellFormed hs, ⟨u.id, u.file, [], .empty, .empty⟩, by rw [ht], rfl, rfl⟩

theorem exit_failsOnly (hr : Ready u s) : FailsOnly may exit s := by
  obtain ⟨o, ho, -⟩ := hr.isOpen
  apply FailsOnly.bind_get
  rw [ho]
  exact .of_ends rfl

theorem eq_of_exit (h : exit.Ends s ⟨⟩ t) : t = { s with opened := none } :=
  ((exit_meets s).of_ends h).2

/-- After the exit no unit is open. -/
theorem opened_of_exit (h : exit.Ends s ⟨⟩ t) : t.opened = none := by
  rw [eq_of_exit h]

/-- A closed unit is indexed unless some declarator hides a function. -/
theorem indexUnit_failsOnly (hu : u.Closed) (hs : s.WellFormed) (hopened : s.opened = none)
    (hmay : ∀ name, u.Hides name → may (.fault (.notAFunction name))) :
    FailsOnly may (indexUnit u) s := by
  apply (enter_failsOnly u hopened).bind
  intro _ t ht
  have hrt := Ready.of_enter hs ht
  apply FailsOnly.bind_gives hu.declarators_gives
  intro ids hids hlt
  apply (indexAll_failsOnly hu hrt hlt fun id hid d hd hhides =>
    hmay d.name ⟨ids, hids, id, hid, d, hd, hhides, rfl⟩).bind
  intro made w hw
  have htw : t.Indexes w := ((indexAll_meets u ids hrt.wellFormed).of_ends hw).1
  have hrw := hrt.indexes htw ((indexAll_stays sameUnit_admits ids t).of_ends hw).1
  exact (exit_failsOnly hrw).bind fun _ _ _ => .pure

/-! ## Denotation -/

variable {α β : Type} {x : Op α} {f : α → Op β} {P : α → Session → Prop} {e : ExprId}
  {view : Viewpoint}

/-- What is recalled leaves the unit open. -/
theorem Ready.bind (hr : Ready u s) (hx : FailsOnly may x s) (hm : Recalls .visits x s P)
    (hf : ∀ a t, s.Visits t → Ready u t → P a t → FailsOnly may (f a) t) :
    FailsOnly may (x >>= f) s :=
  hx.bind_meets hm fun a t hst ha => hf a t hst (hr.visits hst) ha.1

/-- A signature on demand can be made for every function of the unit. -/
theorem implicitPrototype_failsOnly
    (hlisted : ∀ f d, u.decl f = .ok d → ∀ p ∈ d.params, p < u.decls.size) (hr : Ready u s)
    {func : DeclId} (hfunc : u.IsFunction func) : FailsOnly may (implicitPrototype u func) s := by
  obtain ⟨o, ho⟩ := hr.isOpen
  apply FailsOnly.bind_requireOpen ho
  apply FailsOnly.bind_gives (pairingKey_gives hfunc.lt)
  intro key _ _
  apply FailsOnly.bind_get
  split
  · exact .pure
  · apply FailsOnly.bind_gives (definitionFor_gives hfunc.lt)
    intro definition _ hdefinition
    have hseen : u.IsFunction (definition.getD func) := by
      cases definition with
      | none => exact hfunc
      | some d => exact hdefinition d rfl
    have hnew : FailsOnly may (newFunction u (definition.getD func)) s := by
      apply newFunction_failsOnly (hlisted _) hr.wellFormed hseen.lt
      intro d hd hnot
      obtain ⟨d', hd', hfun⟩ := hseen
      obtain rfl := Except.ok.inj (hd.symm.trans hd')
      exact absurd hfun hnot
    apply hnew.bind
    intro v t _
    exact FailsOnly.bind_modify (FailsOnly.bind_modify .pure)

theorem storedFor_failsOnly {d : DeclId} (hd : d < u.decls.size) :
    FailsOnly may (storedFor u d) s := by
  apply FailsOnly.bind_get
  exact FailsOnly.bind_gives (decl_gives hd) fun _ _ _ => .pure

theorem storedParam_failsOnly (hu : u.Closed) {func : DeclId} (hfunc : u.IsFunction func)
    (i : Nat) : FailsOnly may (storedParam u func i) s := by
  apply FailsOnly.bind_gives (decl_gives hfunc.lt)
  intro d hd _
  split
  · next p hp => exact storedFor_failsOnly (hu.param_lt hd (List.mem_of_getElem? hp))
  · exact .pure

theorem denoteFunction_failsOnly (hu : u.Closed) (hr : Ready u s) {func : DeclId}
    (hfunc : u.IsFunction func) : FailsOnly may (denoteFunction u func) s := by
  apply FailsOnly.bind_gives (prototypeOf_gives hfunc.lt)
  intro declaration _ hdeclaration
  split
  · exact storedFor_failsOnly (hdeclaration _ rfl).lt
  · exact implicitPrototype_failsOnly (fun _ _ hd _ => hu.param_lt hd) hr hfunc

section

variable (hmay : ∀ p, may (.unresolved (.parameter p)))

include hmay

/-- A parameter can be looked up, since its owner is a function of the unit. -/
theorem denoteParam_failsOnly (hu : u.Closed) (hr : Ready u s) {owner : DeclId}
    (howner : u.IsFunction owner) (i : Nat) : FailsOnly may (denoteParam u owner i view) s := by
  have hlt : owner < u.decls.size := howner.lt
  cases view with
  | body =>
    apply FailsOnly.bind_gives (definitionFor_gives hlt)
    intro definition _ hdefinition
    split
    · exact storedParam_failsOnly hu (hdefinition _ rfl) i
    · exact FailsOnly.bind_gives (decl_gives hlt) fun _ _ _ => .unresolved (hmay _)
  | declaration =>
    apply FailsOnly.bind_gives (prototypeOf_gives hlt)
    intro declaration _ hdeclaration
    split
    · exact storedParam_failsOnly hu (hdeclaration _ rfl) i
    · apply (implicitPrototype_failsOnly (fun _ _ hd _ => hu.param_lt hd) hr howner).bind
      exact fun _ _ _ => FailsOnly.bind_get .pure

/-- A declaration can be looked up if the unit has it. -/
theorem denoteDecl_failsOnly (hu : u.Closed) (hr : Ready u s) {id : DeclId}
    (hid : id < u.decls.size) : FailsOnly may (denoteDecl u id view) s := by
  obtain ⟨o, ho⟩ := hr.isOpen
  apply FailsOnly.bind_requireOpen ho
  apply FailsOnly.bind_gives (decl_gives hid)
  intro d hd _
  apply FailsOnly.bind_get
  split
  · exact .pure
  · split
    · next hfun => exact denoteFunction_failsOnly hu hr ⟨d, hd, hfun⟩
    · split
      · apply FailsOnly.bind_gives (parameterPosition_gives hid)
        intro position _ hposition
        split
        · exact denoteParam_failsOnly hmay hu hr (hposition _ _ rfl) _
        · exact .unresolved (hmay _)
      · exact FailsOnly.bind_get .pure

end

theorem dereferenceOne_failsOnly (v : VarId) : FailsOnly may (dereferenceOne v) s := by
  apply FailsOnly.bind_get
  split
  · exact .pure
  · apply FailsOnly.bind_get
    split
    · exact FailsOnly.bind (FailsOnly.map (.of_ends rfl)) fun _ _ _ => FailsOnly.bind_modify .pure
    · exact FailsOnly.bind .pure fun _ _ _ => FailsOnly.bind_modify .pure

theorem dereferenceAll_failsOnly (vs : List VarId) : FailsOnly may (dereferenceAll vs) s := by
  induction vs generalizing s with
  | nil => exact .pure
  | cons v rest ih =>
    exact (dereferenceOne_failsOnly v).bind fun _ _ _ => ih.bind fun _ _ _ => .pure

theorem literalVariable_failsOnly (hr : Ready u s) (value : String) :
    FailsOnly may (literalVariable u e value) s := by
  obtain ⟨o, ho⟩ := hr.isOpen
  apply FailsOnly.bind_current ho
  split
  · exact .pure
  · apply freshAtom_failsOnly.bind_meets (freshAtom_meets s)
    intro a t (hst : s.Creates t) ha
    have hbound : Meets .records (discard (addConstraint (.atLeast a .ntArr))) t fun _ _ => True :=
      Meets.discard (addConstraint_meets _ t).any
    apply (addConstraint_failsOnly (c := .atLeast a .ntArr) ha).discard.bind_meets hbound.to_creates
    intro _ w (htw : t.Creates w) _
    apply (allocate_failsOnly _).bind
    intro v z hz
    have hopened : z.opened = s.opened := by
      cases hz
      exact htw.only ▸ hst.only ▸ rfl
    exact FailsOnly.bind_current ⟨hopened.trans ho.1, ho.2⟩ (FailsOnly.bind_modify .pure)

theorem unknownCallee_failsOnly (hr : Ready u s) : FailsOnly may (unknownCallee u e) s := by
  obtain ⟨o, ho⟩ := hr.isOpen
  apply FailsOnly.bind_current ho
  split
  · exact .pure
  · apply (allocate_failsOnly _).bind
    intro v t ht
    have hopened : t.opened = s.opened := by
      cases ht
      rfl
    exact FailsOnly.bind_current ⟨hopened.trans ho.1, ho.2⟩ (FailsOnly.bind_modify .pure)

/-- Whatever may be wrong with an expression is admitted: any shape, and nesting too deeply wherever
more operands lie on the way than may. -/
structure Excuses (u : TranslationUnit) (may : Failure → Prop) (e : ExprId) : Prop where
  shape : ∀ shape, (∀ o, shape ≠ .tooDeep o) → may (.unresolved shape)
  deep : ∀ {k o}, expressionLimit < k → u.Descends k e o → may (.unresolved (.tooDeep o))

theorem Excuses.of_all (h : ∀ shape, may (.unresolved shape)) : Excuses u may e where
  shape shape _ := h shape
  deep _ _ := h _

theorem Excuses.operand {o : ExprId} {x : Expr} (h : Excuses u may e) (hx : u.expr e = .ok x)
    (ho : o ∈ x.operands) : Excuses u may o where
  shape := h.shape
  deep hk hdown := h.deep (Nat.lt_succ_of_lt hk) (.operand hx ho hdown)

theorem Excuses.parameter (h : Excuses u may e) (error : ParameterError) :
    may (.unresolved (.parameter error)) := h.shape _ (by simp)

section

variable (hshape : ∀ shape, (∀ o, shape ≠ .tooDeep o) → may (.unresolved shape))

include hshape

/-- What a call of a named declaration returns can be looked up. -/
theorem denoteCall_failsOnly (hu : u.Closed) (hr : Ready u s) {target : DeclId}
    (htarget : target < u.decls.size) : FailsOnly may (denoteCall u e target) s := by
  apply FailsOnly.bind_gives (decl_gives htarget)
  intro d _ _
  split
  · exact .unresolved (hshape _ (by simp))
  · apply hr.bind (denoteDecl_failsOnly (fun _ => hshape _ (by simp)) hu hr htarget)
      (denoteDecl_recalls u target .declaration hr.wellFormed)
    intro found t _ hrt _
    apply FailsOnly.bind_get
    dsimp only
    split
    · exact .pure
    · exact (unknownCallee_failsOnly hrt).bind fun _ _ _ => .pure

/-- Operands may nest too deeply or have no meaning; nothing else goes wrong. -/
theorem denoteWithin_failsOnly (hu : u.Closed) (n : Nat)
    (hdeep : ∀ o, u.Descends n e o → may (.unresolved (.tooDeep o))) (hr : Ready u s)
    (he : e < u.exprs.size) : FailsOnly may (denoteWithin u n e view) s := by
  have hparameter : ∀ error, may (.unresolved (.parameter error)) := fun _ => hshape _ (by simp)
  induction n generalizing s e view with
  | zero => exact .unresolved (hdeep e (.refl e))
  | succ n ih =>
    apply FailsOnly.bind_gives (expr_gives he)
    intro x hx _
    have hlt : ∀ o ∈ x.operands, o < u.exprs.size := fun o ho => hu.operand_lt hx ho
    have hop : ∀ o ∈ x.operands, ∀ {s view}, Ready u s →
        FailsOnly may (denoteWithin u n o view) s := fun o ho _ _ hr =>
      ih (fun p hp => hdeep p (.operand hx ho hp)) hr (hlt o ho)
    cases x with
    | paren inner | implicitCast inner | bindTemporary inner =>
      exact hop inner (by simp [Expr.operands]) hr
    | declRef d => exact denoteDecl_failsOnly hparameter hu hr (hu.targets e _ hx d rfl)
    | member _ d => exact denoteDecl_failsOnly hparameter hu hr (hu.targets e _ hx d rfl)
    | binary _ lhs rhs =>
      apply hr.bind (hop lhs (by simp [Expr.operands]) hr)
        (denoteWithin_recalls u n lhs view hr.wellFormed)
      intro _ t _ hrt _
      exact (hop rhs (by simp [Expr.operands]) hrt).bind fun _ _ _ => .pure
    | subscript base _ =>
      apply (hop base (by simp [Expr.operands]) hr).bind
      exact fun set t _ => dereferenceAll_failsOnly set.members
    | unary op operand =>
      have hoperand := @hop operand (by simp [Expr.operands])
      cases op with
      | deref =>
        apply (hoperand hr).bind
        intro set t _
        apply FailsOnly.bind_get
        split
        · exact .unresolved (hshape _ (by simp))
        · exact dereferenceAll_failsOnly set.members
      | addrOf | neg | not => exact hoperand hr
    | call callee args =>
      apply FailsOnly.bind_gives (hu.namedCallee_gives he)
      intro target _ htarget
      split
      · exact denoteCall_failsOnly hshape hu hr (htarget _ rfl)
      · apply (hop callee (by simp [Expr.operands]) hr).bind
        exact fun _ _ _ => FailsOnly.bind_get .pure
    | conditional cond whenTrue whenFalse =>
      apply hr.bind (hop cond (by simp [Expr.operands]) hr)
        (denoteWithin_recalls u n cond view hr.wellFormed)
      intro _ t _ hrt _
      apply hrt.bind (hop whenTrue (by simp [Expr.operands]) hrt)
        (denoteWithin_recalls u n whenTrue view hrt.wellFormed)
      intro _ w _ hrw _
      exact (hop whenFalse (by simp [Expr.operands]) hrw).bind fun _ _ _ => .pure
    | stringLiteral value => exact (literalVariable_failsOnly hr value).bind fun _ _ _ => .pure
    | intLiteral _ => exact .pure
    | cast _ _ => exact .pure
    | sizeOf _ => exact .pure

end

theorem denote_failsOnly (hmay : Excuses u may e) (hu : u.Closed) (hr : Ready u s)
    (he : e < u.exprs.size) : FailsOnly may (denote u e view) s := by
  obtain ⟨o, ho⟩ := hr.isOpen
  apply FailsOnly.bind_requireOpen ho
  exact denoteWithin_failsOnly hmay.shape hu _ (fun _ => hmay.deep (Nat.lt_succ_self _)) hr he

end Session

end CheckedPointers
