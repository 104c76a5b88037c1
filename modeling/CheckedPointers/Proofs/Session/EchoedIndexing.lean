import CheckedPointers.Proofs.Session.Echo
import CheckedPointers.Proofs.Source.Rewording

/-!
Indexing in other words. Two units that say the same give their declarations the same variables,
whatever their types are called.
-/
namespace CheckedPointers

namespace Session

open CType Op TranslationUnit

variable {K : ExprId → ExprId → Prop} {visit : Option (Nat × String)}

/-! ## New variables -/

section

variable {ty ty' : CType}

theorem newPointerOver_echoes (name : String) (h : ty.erased = ty'.erased) (itype : Option String)
    {x x' : Op (Option VarId)} (hx : Matches (Echoes K visit) Eq x x') :
    Matches (Echoes K visit) Eq (newPointerOver ty name itype x)
      (newPointerOver ty' name itype x') := by
  rw [newPointerOver, newPointerOver, depth_eq h, isArray_eq h]
  exact (freshAtoms_echoes _).bind_eq fun atoms => hx.bind_eq fun function => allocate_echoes rfl

/-- What a type leads to is found below its aliases. -/
theorem newPointee_unaliased (name : String) (ty : CType) : newPointee name ty.unaliased = newPointee name ty := by
  induction ty using unaliased.induct with
  | case1 _ ty ih => rw [unaliased, newPointee, ih]
  | case2 ty h => cases ty <;> simp_all [unaliased]

mutual

/-- Typedefs do not show in what is made for a type. -/
theorem newPointee_echoes (name : String) (ty ty' : CType) (h : ty.erased = ty'.erased) :
    Matches (Echoes K visit) Eq (newPointee name ty) (newPointee name ty') := by
  match ty with
  | .typedef _ ty =>
    rw [newPointee]
    exact newPointee_echoes name ty ty' h
  | .pointer ty =>
    obtain ⟨inner', hty', hinner⟩ := unaliased_pointer h.symm
    rw [← newPointee_unaliased name ty', hty', newPointee, newPointee]
    exact newPointee_echoes name ty inner' hinner.symm
  | .array ty size =>
    obtain ⟨inner', hty', hinner⟩ := unaliased_array h.symm
    rw [← newPointee_unaliased name ty', hty', newPointee, newPointee]
    exact newPointee_echoes name ty inner' hinner.symm
  | .builtin _ | .record _ =>
    rw [← newPointee_unaliased name ty']
    rw [← erased_unaliased ty'] at h
    cases hty' : ty'.unaliased <;> simp_all [erased, unaliased_ne_typedef, newPointee]
    exact .pure rfl
  | .function ret params variadic hasPrototype =>
    obtain ⟨ret', params', hty', hret, hparams⟩ := unaliased_function h.symm
    rw [← newPointee_unaliased name ty', hty', newPointee, newPointee]
    refine (newPointerOver_echoes name hret.symm none
      (newPointee_echoes name ret ret' hret.symm)).bind_eq fun r => ?_
    refine (newSlots_echoes params params' hparams.symm).bind_eq fun slots => ?_
    exact (allocate_echoes (by rfl)).bind_eq fun v => .pure rfl

theorem newSlots_echoes (params params' : List CType) (h : erasedAll params = erasedAll params') :
    Matches (Echoes K visit) Eq (newSlots params) (newSlots params') := by
  match params, params' with
  | [], [] => exact .pure rfl
  | ty :: rest, ty' :: rest' =>
    rw [erasedAll, erasedAll, List.cons.injEq] at h
    rw [newSlots, newSlots]
    refine (newPointerOver_echoes "" h.1 none (newPointee_echoes "" ty ty' h.1)).bind_eq fun p => ?_
    exact (newSlots_echoes rest rest' h.2).bind_eq fun slots => .pure rfl

end

theorem newPointer_echoes (name : String) (h : ty.erased = ty'.erased) (itype : Option String) :
    Matches (Echoes K visit) Eq (newPointer ty name itype) (newPointer ty' name itype) :=
  newPointerOver_echoes name h itype (newPointee_echoes name ty ty' h)

end

/-! ## Declarations -/

variable {u u' : TranslationUnit} (w : u.Rewording u')

include w

theorem newParameter_echoes (d : DeclId) :
    Matches (Echoes K visit) Eq (newParameter u d) (newParameter u' d) := by
  refine Matches.bind_lift (w.decl d) fun p p' hp => ?_
  have hty : (p.ty?.getD .int).erased = (p'.ty?.getD .int).erased := by
    have hty := hp.ty?
    generalize p.ty? = t, p'.ty? = t' at hty ⊢
    cases hty with
    | none => rfl
    | some h => exact h.erased
  rw [hp.name, hp.itype?, hp.isRewritable]
  refine (newPointer_echoes _ hty _).bind_eq fun v => ?_
  cases p.isRewritable with
  | true => exact .pure rfl
  | false => exact (boundBelow_echoes v _).discard.bind_eq fun _ => .pure rfl

theorem newParameters_echoes (params : List DeclId) :
    Matches (Echoes K visit) Eq (newParameters u params) (newParameters u' params) := by
  induction params with
  | nil => exact .pure rfl
  | cons d rest ih => exact (newParameter_echoes w d).bind_eq fun v => ih.bind_eq fun _ => .pure rfl

/-- A function is made alike on both sides. -/
theorem newFunction_echoes (func : DeclId) :
    Matches (Echoes K visit) Eq (newFunction u func) (newFunction u' func) := by
  refine Matches.bind_lift (w.decl func) fun d d' hd => ?_
  have hkind := hd.kind
  rw [hd.name, hd.hasBody]
  generalize d.kind = k, d'.kind = k' at hkind
  cases hkind with
  | @function signature signature' _ _ params isGlobal ht hb =>
    have herased := ht.erased
    simp only [Signature.toType, erased, function.injEq] at herased
    obtain ⟨hret, -, -, hprototype⟩ := herased
    dsimp only
    refine (newPointer_echoes _ hret _).bind_eq fun r => ?_
    refine (newParameters_echoes w params).bind_eq fun slots => ?_
    rw [hprototype]
    exact allocate_echoes rfl
  | _ => exact .fault

theorem storeSlots_echoes (slots : List (DeclId × VarSet)) :
    Matches (Echoes K visit) Eq (storeSlots u slots) (storeSlots u' slots) := by
  induction slots with
  | nil => exact .pure rfl
  | cons slot rest ih =>
    refine Matches.bind_lift (w.decl slot.1) fun d d' hd => ?_
    rw [hd.anchor]
    exact (store_echoes _ _).bind_eq fun _ => ih

theorem recordFunction_echoes (func : DeclId) (v : VarId) :
    Matches (Echoes K visit) Eq (recordFunction u func v) (recordFunction u' func v) := by
  refine Matches.bind_lift (w.decl func) fun d d' hd => ?_
  rw [hd.hasBody, hd.key, hd.params]
  have hstore : Matches (Echoes K visit) Eq
      (do
        let slots := (((← get).arena.function? v).map FunctionVariable.params).getD []
        storeSlots u (d.params.zip slots))
      (do
        let slots := (((← get).arena.function? v).map FunctionVariable.params).getD []
        storeSlots u' (d.params.zip slots)) := by
    apply Matches.bind_get
    intro s t hst
    rw [hst.function?_map fun _ => rfl]
    exact storeSlots_echoes w _
  split
  · refine (updatePairing_echoes _).bind_eq fun _ => ?_
    refine Matches.bind_lift (w.prototypeOf func) fun declaration declaration' h => ?_
    subst h
    cases declaration with
    | none => exact hstore
    | some declaration =>
      refine Matches.bind_lift (w.keyOf declaration) fun key key' h => ?_
      subst h
      exact (updatePairing_echoes _).bind_eq fun _ => hstore
  · exact (updatePairing_echoes _).bind_eq fun _ => hstore

theorem giveFunction_echoes (func : DeclId) {d d' : Decl} (hd : d.Rewords w.Told w.Seen d') {ty ty' : CType}
    (hty : ty.erased = ty'.erased) :
    Matches (Echoes K visit) Eq (giveFunction u func d ty) (giveFunction u' func d' ty') := by
  apply Matches.bind_get
  intro s t hst
  rw [hd.anchor, hst.storedAt, hst.isFunction, isFunction_eq hty]
  split
  · refine (newFunction_echoes w func).bind_eq fun v => ?_
    refine (store_echoes _ _).bind_eq fun _ => ?_
    exact (recordFunction_echoes w func v).bind_eq fun _ => .pure rfl
  · exact .pure rfl

theorem givePointer_echoes {d d' : Decl} (hd : d.Rewords w.Told w.Seen d') {ty ty' : CType}
    (hty : ty.erased = ty'.erased) :
    Matches (Echoes K visit) Eq (givePointer d ty) (givePointer d' ty') := by
  apply Matches.bind_get
  intro s t hst
  rw [hd.anchor, hd.name, hd.itype?, hst.storedAt, hst.isPointer, isPointer_eq hty, isArray_eq hty]
  split
  · exact (newPointer_echoes _ hty _).bind_eq fun v => (store_echoes _ _).bind_eq fun _ => .pure rfl
  · exact .pure rfl

/-- A declarator gets the same variables, however its type is spelled. -/
theorem giveVariables_echoes (id : DeclId) :
    Matches (Echoes K visit) Eq (giveVariables u id) (giveVariables u' id) := by
  refine (requireOpen_echoes w.id w.file).bind_eq fun _ => ?_
  refine Matches.bind_lift (w.decl id) fun d d' hd => ?_
  have hty := hd.ty?
  rw [hd.isDeclarator, hd.isRewritable, hd.anchor]
  generalize d.ty? = t, d'.ty? = t' at hty
  cases hty with
  | none => split <;> first | exact .pure rfl | contradiction
  | @some ty ty' hty =>
    cases d.isDeclarator with
    | false => exact .pure rfl
    | true =>
      refine (giveFunction_echoes w id hd hty.erased).bind_eq fun madeFunction => ?_
      refine (givePointer_echoes w hd hty.erased).bind_eq fun madePointer => ?_
      cases d.isRewritable with
      | true => exact .pure rfl
      | false =>
        apply Matches.bind_get
        intro s t hst
        rw [hst.index]
        cases s.index.find? d.anchor with
        | none => exact .pure rfl
        | some set => exact (boundSet_echoes set _).discard.bind_eq fun _ => .pure rfl

theorem noteFunction_echoes (func : DeclId) :
    Matches (Echoes K visit) Eq (noteFunction u func) (noteFunction u' func) := by
  refine (requireOpen_echoes w.id w.file).bind_eq fun _ => ?_
  refine Matches.bind_lift (w.decl func) fun d d' hd => ?_
  rw [hd.isGlobalFunction, hd.name, hd.hasBody, hd.anchor]
  split
  · refine Matches.bind_eq (Matches.modify fun s t hst => { hst with
      externs := by simp only [hst.externs] }) fun _ => ?_
    apply Matches.bind_get
    intro s t hst
    rw [hst.storedAt, hst.isFunction, hst.globals]
    dsimp only
    split
    · exact Matches.modify fun s t hst => { hst with
        globals := by simp only [hst.globals] }
    · exact .pure rfl
  · exact .pure rfl

theorem indexAll_echoes (ids : List DeclId) :
    Matches (Echoes K visit) Eq (indexAll u ids) (indexAll u' ids) := by
  induction ids with
  | nil => exact .pure rfl
  | cons id rest ih =>
    refine (giveVariables_echoes w id).bind_eq fun made => ?_
    refine Matches.bind_lift (w.decl id) fun d d' hd => ?_
    rw [hd.isFunction]
    cases d.isFunction with
    | true => exact (noteFunction_echoes w id).bind_eq fun _ => ih.bind_eq fun _ => .pure rfl
    | false => exact ih.bind_eq fun _ => .pure rfl

/-- Reworded units are indexed alike. -/
theorem indexUnit_echoes :
    Leads (Echoes K none) (Echoes K none) Eq (indexUnit u) (indexUnit u') := by
  refine (enter_echoes K w.id w.file).bind_eq fun _ => ?_
  refine Leads.bind_lift w.declarators fun ids ids' hids => ?_
  subst hids
  exact (indexAll_echoes w ids).leads.bind_eq fun made =>
    exit_echoes.bind_eq fun _ => (Matches.pure rfl).leads

end Session

end CheckedPointers
