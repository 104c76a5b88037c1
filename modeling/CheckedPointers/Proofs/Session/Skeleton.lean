import CheckedPointers.Analysis
import CheckedPointers.Proofs.Source.Reordering

/-!
Operations on the skeleton of a unit. None but the one that follows the statements of a body looks
at them, so the others do in the skeleton what they do in the unit.
-/
namespace CheckedPointers

namespace Op

theorem lift_map_bind {α β γ : Type} (x : Except Fault α) (g : α → β) (f : β → Op γ) :
    (liftM (x.map g) : Op β) >>= f = liftM x >>= fun a => f (g a) := by
  cases x <;> rfl

end Op

open Op TranslationUnit

namespace Session

variable (u : TranslationUnit) {view : Viewpoint}

@[simp] theorem current_skeleton : current u.skeleton = current u := rfl

@[simp] theorem requireOpen_skeleton : requireOpen u.skeleton = requireOpen u := rfl

@[simp] theorem enter_skeleton : enter u.skeleton = enter u := rfl

/-! ## Indexing -/

@[simp] theorem newParameter_skeleton (d : DeclId) :
    newParameter u.skeleton d = newParameter u d := by
  simp only [newParameter, decl_skeleton, lift_map_bind, Decl.ty?_skeleton, Decl.name_skeleton,
    Decl.itype?_skeleton, Decl.isRewritable_skeleton]

@[simp] theorem newParameters_skeleton (ds : List DeclId) :
    newParameters u.skeleton ds = newParameters u ds := by
  induction ds with
  | nil => rfl
  | cons d rest ih => simp only [newParameters, newParameter_skeleton, ih]

@[simp] theorem newFunction_skeleton (func : DeclId) :
    newFunction u.skeleton func = newFunction u func := by
  simp only [newFunction, decl_skeleton, lift_map_bind, newParameters_skeleton, Decl.name_skeleton,
    Decl.hasBody_skeleton]
  congr 1
  funext d
  obtain ⟨_, _, _, kind⟩ := d
  cases kind <;> rfl

@[simp] theorem storeSlots_skeleton (slots : List (DeclId × VarSet)) :
    storeSlots u.skeleton slots = storeSlots u slots := by
  induction slots with
  | nil => rfl
  | cons e rest ih =>
    simp only [storeSlots, decl_skeleton, lift_map_bind, Decl.anchor_skeleton, ih]

@[simp] theorem recordFunction_skeleton (func : DeclId) (v : VarId) :
    recordFunction u.skeleton func v = recordFunction u func v := by
  simp only [recordFunction, decl_skeleton, lift_map_bind, Decl.hasBody_skeleton, Decl.key_skeleton,
    Decl.params_skeleton, prototypeOf_skeleton, keyOf_skeleton, storeSlots_skeleton]

@[simp] theorem giveFunction_skeleton (func : DeclId) (d : Decl) (ty : CType) :
    giveFunction u.skeleton func d.skeleton ty = giveFunction u func d ty := by
  simp only [giveFunction, Decl.anchor_skeleton, newFunction_skeleton, recordFunction_skeleton]

@[simp] theorem givePointer_skeleton (d : Decl) (ty : CType) :
    givePointer d.skeleton ty = givePointer d ty := by
  simp only [givePointer, Decl.anchor_skeleton, Decl.name_skeleton, Decl.itype?_skeleton]

@[simp] theorem giveVariables_skeleton (id : DeclId) :
    giveVariables u.skeleton id = giveVariables u id := by
  simp only [giveVariables, requireOpen_skeleton, decl_skeleton, lift_map_bind,
    Decl.isDeclarator_skeleton, Decl.ty?_skeleton, Decl.isRewritable_skeleton, Decl.anchor_skeleton,
    giveFunction_skeleton, givePointer_skeleton]

@[simp] theorem noteFunction_skeleton (func : DeclId) :
    noteFunction u.skeleton func = noteFunction u func := by
  simp only [noteFunction, requireOpen_skeleton, decl_skeleton, lift_map_bind,
    Decl.isGlobalFunction_skeleton, Decl.name_skeleton, Decl.hasBody_skeleton, Decl.anchor_skeleton]

@[simp] theorem indexAll_skeleton (ids : List DeclId) :
    indexAll u.skeleton ids = indexAll u ids := by
  induction ids with
  | nil => rfl
  | cons id rest ih =>
    simp only [indexAll, giveVariables_skeleton, decl_skeleton, lift_map_bind,
      Decl.isFunction_skeleton, noteFunction_skeleton, ih]

@[simp] theorem indexUnit_skeleton : indexUnit u.skeleton = indexUnit u := by
  simp only [indexUnit, enter_skeleton, declarators_skeleton, indexAll_skeleton]

/-! ## Denotation -/

@[simp] theorem implicitPrototype_skeleton (func : DeclId) :
    implicitPrototype u.skeleton func = implicitPrototype u func := by
  simp only [implicitPrototype, requireOpen_skeleton, pairingKey_skeleton, definitionFor_skeleton,
    newFunction_skeleton]

@[simp] theorem storedFor_skeleton (d : DeclId) : storedFor u.skeleton d = storedFor u d := by
  simp only [storedFor, decl_skeleton, lift_map_bind, Decl.anchor_skeleton]

@[simp] theorem storedParam_skeleton (func : DeclId) (i : Nat) :
    storedParam u.skeleton func i = storedParam u func i := by
  simp only [storedParam, decl_skeleton, lift_map_bind, Decl.params_skeleton, storedFor_skeleton]

@[simp] theorem denoteFunction_skeleton (func : DeclId) :
    denoteFunction u.skeleton func = denoteFunction u func := by
  simp only [denoteFunction, prototypeOf_skeleton, storedFor_skeleton, implicitPrototype_skeleton]

@[simp] theorem denoteParam_skeleton (owner : DeclId) (i : Nat) :
    denoteParam u.skeleton owner i view = denoteParam u owner i view := by
  cases view <;> simp only [denoteParam, definitionFor_skeleton, prototypeOf_skeleton,
    storedParam_skeleton, implicitPrototype_skeleton, decl_skeleton, lift_map_bind,
    Decl.name_skeleton]

@[simp] theorem denoteDecl_skeleton (id : DeclId) :
    denoteDecl u.skeleton id view = denoteDecl u id view := by
  simp only [denoteDecl, requireOpen_skeleton, decl_skeleton, lift_map_bind, Decl.anchor_skeleton,
    Decl.isFunction_skeleton, Decl.isParam_skeleton, denoteFunction_skeleton,
    parameterPosition_skeleton, denoteParam_skeleton]

@[simp] theorem literalVariable_skeleton (e : ExprId) (value : String) :
    literalVariable u.skeleton e value = literalVariable u e value := rfl

@[simp] theorem unknownCallee_skeleton (call : ExprId) :
    unknownCallee u.skeleton call = unknownCallee u call := rfl

@[simp] theorem denoteCall_skeleton (call : ExprId) (target : DeclId) :
    denoteCall u.skeleton call target = denoteCall u call target := by
  simp only [denoteCall, decl_skeleton, lift_map_bind, Decl.isDeclarator_skeleton,
    Decl.anchor_skeleton, denoteDecl_skeleton, unknownCallee_skeleton]

@[simp] theorem expr_skeleton (e : ExprId) : u.skeleton.expr e = u.expr e := rfl

theorem unwrapWithin_skeleton (wraps : Expr → Option ExprId) (n : Nat) (e : ExprId) :
    u.skeleton.unwrapWithin wraps n e = u.unwrapWithin wraps n e := by
  induction n generalizing e with
  | zero => rfl
  | succ n ih => simp only [unwrapWithin, expr_skeleton, ih]

@[simp] theorem unparen_skeleton (e : ExprId) : u.skeleton.unparen e = u.unparen e :=
  unwrapWithin_skeleton u _ _ e

@[simp] theorem uncast_skeleton (e : ExprId) : u.skeleton.uncast e = u.uncast e :=
  unwrapWithin_skeleton u _ _ e

@[simp] theorem namedCallee_skeleton (call : ExprId) :
    u.skeleton.namedCallee call = u.namedCallee call := by
  simp only [namedCallee, expr_skeleton, unparen_skeleton]

@[simp] theorem denoteWithin_skeleton (n : Nat) (e : ExprId) :
    denoteWithin u.skeleton n e view = denoteWithin u n e view := by
  induction n generalizing e view with
  | zero => rfl
  | succ n ih =>
    simp only [denoteWithin, expr_skeleton, ih, denoteDecl_skeleton, namedCallee_skeleton,
      denoteCall_skeleton, literalVariable_skeleton]

@[simp] theorem denote_skeleton (e : ExprId) : denote u.skeleton e view = denote u e view := by
  simp only [denote, requireOpen_skeleton, denoteWithin_skeleton]

/-! ## Values -/

@[simp] theorem staticType?_skeleton (e : ExprId) : u.skeleton.staticType? e = u.staticType? e := by
  simp only [staticType?, expr_skeleton, unparen_skeleton, decl_skeleton, TranslationUnit.map_bind,
    Decl.ty?_skeleton]

@[simp] theorem allocationSize?_skeleton (value : ExprId) :
    u.skeleton.allocationSize? value = u.allocationSize? value := by
  have hcount (bytes : ExprId) : u.skeleton.elementCount? bytes = u.elementCount? bytes := by
    simp only [elementCount?, isSizeOf, expr_skeleton, uncast_skeleton]
  simp only [allocationSize?, expr_skeleton, uncast_skeleton, namedCallee_skeleton, decl_skeleton,
    TranslationUnit.map_bind, Decl.name_skeleton, hcount]

@[simp] theorem isAllowedCall_skeleton (options : Options) (e : ExprId) :
    u.skeleton.isAllowedCall options e = u.isAllowedCall options e := by
  simp only [isAllowedCall, expr_skeleton, uncast_skeleton, namedCallee_skeleton, decl_skeleton,
    TranslationUnit.map_bind, Decl.isFunction_skeleton, Decl.name_skeleton]

@[simp] theorem noteAllocation_skeleton (target : DeclId) (value : ExprId) :
    noteAllocation u.skeleton target value = noteAllocation u target value := by
  have hflag : flagArray u.skeleton target = flagArray u target := rfl
  have hsize (size : ExprId) :
      addArraySize u.skeleton target size = addArraySize u target size := by
    simp only [addArraySize, current_skeleton, decl_skeleton, lift_map_bind, Decl.name_skeleton]
  simp only [noteAllocation, allocationSize?_skeleton, hflag, hsize]

@[simp] theorem flowThroughCast_skeleton (targets : VarSet) (ty : CType) (operand : ExprId) :
    flowThroughCast u.skeleton view targets ty operand =
      flowThroughCast u view targets ty operand := by
  simp only [flowThroughCast, isAllowedCall_skeleton, denote_skeleton, staticType?_skeleton]

@[simp] theorem flowInto_skeleton (targets : VarSet) (named : Option DeclId) (value : ExprId) :
    flowInto u.skeleton view targets named value = flowInto u view targets named value := by
  simp only [flowInto, noteAllocation_skeleton, unparen_skeleton, expr_skeleton,
    flowThroughCast_skeleton, isAllowedCall_skeleton, denote_skeleton]

@[simp] theorem needBounds_skeleton (base : ExprId) :
    needBounds u.skeleton view base = needBounds u view base := by
  simp only [needBounds, denote_skeleton]

@[simp] theorem passArguments_skeleton (slots : List VarSet) (args : List ExprId) :
    passArguments u.skeleton view slots args = passArguments u view slots args := by
  induction args generalizing slots with
  | nil => rw [passArguments, passArguments]
  | cons arg rest ih => cases slots <;> simp only [passArguments, denote_skeleton, ih]

@[simp] theorem calleeVariables_skeleton (call callee : ExprId) :
    calleeVariables u.skeleton view call callee = calleeVariables u view call callee := by
  simp only [calleeVariables, namedCallee_skeleton, decl_skeleton, lift_map_bind,
    Decl.isDeclarator_skeleton, Decl.anchor_skeleton, denoteDecl_skeleton, denote_skeleton]

@[simp] theorem followCall_skeleton (call callee : ExprId) (args : List ExprId) :
    followCall u.skeleton view call callee args = followCall u view call callee args := by
  simp only [followCall, isAllowedCall_skeleton, calleeVariables_skeleton, passArguments_skeleton]

@[simp] theorem followNode_skeleton (e : ExprId) (x : Expr) :
    followNode u.skeleton view e x = followNode u view e x := by
  have hzero (e : ExprId) : u.skeleton.isZero e = u.isZero e := by
    simp only [isZero, expr_skeleton, uncast_skeleton]
  have hassigned (e : ExprId) : assignedName? u.skeleton e = assignedName? u e := by
    simp only [assignedName?, expr_skeleton, unparen_skeleton]
  unfold followNode
  split <;> simp only [hzero, hassigned, needBounds_skeleton, denote_skeleton, flowInto_skeleton,
    followCall_skeleton]

@[simp] theorem followWithin_skeleton (n : Nat) (e : ExprId) :
    followWithin u.skeleton view n e = followWithin u view n e := by
  induction n generalizing e with
  | zero => rfl
  | succ n ih =>
    have hrest : followWithin u.skeleton view n = followWithin u view n := funext ih
    simp only [followWithin, expr_skeleton, followNode_skeleton, hrest]

@[simp] theorem followInitializer_skeleton (var : DeclId) (init : ExprId) :
    followInitializer u.skeleton view var init = followInitializer u view var init := by
  simp only [followInitializer, denoteDecl_skeleton, flowInto_skeleton, follow,
    followWithin_skeleton]

@[simp] theorem followReturn_skeleton (func : DeclId) (value : ExprId) :
    followReturn u.skeleton func value = followReturn u func value := by
  simp only [followReturn, declaredReturns, storedFor_skeleton, flowInto_skeleton, follow,
    followWithin_skeleton]

/-- A statement is followed without a look at the others. -/
@[simp] theorem followStmt_skeleton (func : DeclId) (st : Stmt) :
    followStmt u.skeleton func st = followStmt u func st := by
  cases st with
  | expr e => simp only [followStmt, follow, followWithin_skeleton]
  | ret value => cases value <;> simp only [followStmt, followReturn_skeleton]
  | decl d =>
    simp only [followStmt, decl_skeleton, lift_map_bind, Decl.init?_skeleton,
      followInitializer_skeleton]
  | block _ => rfl

end Session

end CheckedPointers
