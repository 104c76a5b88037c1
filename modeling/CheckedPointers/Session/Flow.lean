import CheckedPointers.CType.Equality
import CheckedPointers.Session.Candidates
import CheckedPointers.Session.Denotation.Expr

/-!
Constraints from the flow of values: assignments, initializers, returns, arguments and subscripts
of one unit. A statement whose expressions cannot be resolved is given up; the rest goes on.
-/
namespace CheckedPointers

structure FlowSummary where
  functions : Nat
  statements : Nat
  /-- Statements that were given up. -/
  skipped : Nat
  deriving DecidableEq

namespace FlowSummary

def zero : FlowSummary := ⟨0, 0, 0⟩

def add (a b : FlowSummary) : FlowSummary :=
  ⟨a.functions + b.functions, a.statements + b.statements, a.skipped + b.skipped⟩

end FlowSummary

namespace TranslationUnit

def isZero (u : TranslationUnit) (e : ExprId) : Except Fault Bool := do
  match ← u.expr (← u.uncast e) with
  | .intLiteral 0 => return true
  | _ => return false

def isSizeOf (u : TranslationUnit) (e : ExprId) : Except Fault Bool := do
  match ← u.expr (← u.uncast e) with
  | .sizeOf _ => return true
  | _ => return false

def staticType? (u : TranslationUnit) (e : ExprId) : Except Fault (Option CType) := do
  match (← u.expr (← u.unparen e)).target? with
  | some d => return (← u.decl d).ty?
  | none => return none

/-- The operand that counts the elements in `bytes`, a product with a size. -/
def elementCount? (u : TranslationUnit) (bytes : ExprId) : Except Fault (Option ExprId) := do
  match ← u.expr (← u.uncast bytes) with
  | .binary .mul lhs rhs => return some (if ← u.isSizeOf lhs then rhs else lhs)
  | _ => return none

/-- The element count of an allocation `malloc(n * sizeof(T))` or `calloc(n, sizeof(T))`. -/
def allocationSize? (u : TranslationUnit) (value : ExprId) : Except Fault (Option ExprId) := do
  let call ← u.uncast value
  match ← u.expr call with
  | .call _ args =>
    match ← u.namedCallee call with
    | some callee =>
      match (← u.decl callee).name, args with
      | "malloc", [bytes] => u.elementCount? bytes
      | "calloc", [count, _] => return some count
      | _, _ => return none
    | none => return none
  | _ => return none

def isAllowedCall (u : TranslationUnit) (options : Options) (e : ExprId) : Except Fault Bool := do
  let call ← u.uncast e
  match ← u.expr call with
  | .call .. =>
    match ← u.namedCallee call with
    | some callee =>
      let d ← u.decl callee
      return d.isFunction && options.allows d.name
    | none => return false
  | _ => return false

end TranslationUnit

namespace Session

/-- Flags the target of a sized allocation as an array of that size. -/
def noteAllocation (u : TranslationUnit) (target : DeclId) (value : ExprId) : Op PUnit := do
  match ← u.allocationSize? value with
  | some size =>
    flagArray u target
    addArraySize u target size
  | none => return ()

/-- A value that reaches its target through an explicit conversion. Its operand is equated with
the target, and forced to the least safe category if its declared type is another one. -/
def flowThroughCast (u : TranslationUnit) (view : Viewpoint) (targets : VarSet) (ty : CType)
    (operand : ExprId) : Op PUnit := do
  if ← u.isAllowedCall (← get).options operand then return ()
  let set ← denote u operand view
  match ← u.staticType? operand with
  | some declared =>
    if !CType.alike ty declared then discard (boundSet set .leastSafe)
  | none => pure ()
  equateSets targets set

/-- Equates the targets of an assignment with its value. What an allowed external function
returns is left alone, so that unrelated allocations share nothing. -/
def flowInto (u : TranslationUnit) (view : Viewpoint) (targets : VarSet) (named : Option DeclId)
    (value : ExprId) : Op PUnit := do
  match named with
  | some target => noteAllocation u target value
  | none => pure ()
  let core ← u.unparen value
  match ← u.expr core with
  | .cast ty operand => flowThroughCast u view targets ty operand
  | _ =>
    if ← u.isAllowedCall (← get).options core then return ()
    equateSets targets (← denote u value view)

/-- The outermost level of whatever is subscripted needs bounds. -/
def needBounds (u : TranslationUnit) (view : Viewpoint) (base : ExprId) : Op PUnit := do
  let set ← denote u base view
  set.members.forM fun v => do
    match ((← get).arena.pointer? v).bind (·.atoms.head?) with
    | some a => discard (addConstraint (.atLeast a .arr))
    | none => return ()

/-- Equates arguments with the slots of the callee; what has no slot is forced to the least safe
category. -/
def passArguments (u : TranslationUnit) (view : Viewpoint) : List VarSet → List ExprId → Op PUnit
  | _, [] => return ()
  | slots, arg :: rest => do
    let values ← denote u arg view
    match slots with
    | slot :: slots =>
      equateSets slot values
      passArguments u view slots rest
    | [] =>
      discard (boundSet values .leastSafe)
      passArguments u view [] rest

def calleeVariables (u : TranslationUnit) (view : Viewpoint) (call callee : ExprId) :
    Op VarSet := do
  match ← u.namedCallee call with
  | some target =>
    let d ← u.decl target
    if d.isDeclarator then denoteDecl u target .declaration
    else Op.unresolved (.uncallable d.anchor)
  | none => denote u callee view

/-- Passes the arguments of a call to the last signature that its callee denotes. -/
def followCall (u : TranslationUnit) (view : Viewpoint) (call callee : ExprId)
    (args : List ExprId) : Op PUnit := do
  if ← u.isAllowedCall (← get).options call then return ()
  let candidates ← calleeVariables u view call callee
  let arena := (← get).arena
  match (candidates.members.filterMap arena.reachableFunction?).getLast? with
  | some f => passArguments u view f.params args
  | none => return ()

def assignedName? (u : TranslationUnit) (lhs : ExprId) : Except Fault (Option DeclId) := do
  match ← u.expr (← u.unparen lhs) with
  | .declRef d => return some d
  | _ => return none

/-- The constraint of one expression on its own operands, before they are followed. -/
def followNode (u : TranslationUnit) (view : Viewpoint) (e : ExprId) : Expr → Op PUnit
  | .subscript base index => do
    if !(← u.isZero index) then needBounds u view base
  | .binary .assign lhs rhs => do
    let targets ← denote u lhs view
    flowInto u view targets (← assignedName? u lhs) rhs
  | .call callee args => followCall u view e callee args
  | .stringLiteral _ => discard (denote u e view)
  | _ => return ()

/-- Follows an expression and all below it, `n` nested expressions at most. -/
def followWithin (u : TranslationUnit) (view : Viewpoint) : Nat → ExprId → Op PUnit
  | 0, e => Op.unresolved (.tooDeep e)
  | n + 1, e => do
    let x ← u.expr e
    followNode u view e x
    x.operands.forM (followWithin u view n)

def follow (u : TranslationUnit) (view : Viewpoint) (e : ExprId) : Op PUnit :=
  followWithin u view (expressionLimit + 1) e

def followInitializer (u : TranslationUnit) (view : Viewpoint) (var : DeclId) (init : ExprId) :
    Op PUnit := do
  let targets ← denoteDecl u var view
  flowInto u view targets (some var) init
  follow u view init

def declaredReturns (u : TranslationUnit) (func : DeclId) : Op VarSet := do
  let stored ← storedFor u func
  let arena := (← get).arena
  return .ofList <| (stored.members.filterMap arena.function?).flatMap (·.returns.members)

def followReturn (u : TranslationUnit) (func : DeclId) (value : ExprId) : Op PUnit := do
  let returns ← declaredReturns u func
  flowInto u .body returns none value
  follow u .body value

def followStmt (u : TranslationUnit) (func : DeclId) : Stmt → Op PUnit
  | .expr e => follow u .body e
  | .ret (some value) => followReturn u func value
  | .ret none | .block _ => return ()
  | .decl d => do
    match (← u.decl d).init? with
    | some init => followInitializer u .body d init
    | none => return ()

def countStatement (x : Op PUnit) : Op FlowSummary := do
  if ← Op.attempt x then return ⟨0, 1, 0⟩ else return ⟨0, 1, 1⟩

def flowStmts (u : TranslationUnit) (func : DeclId) : List Stmt → Op FlowSummary
  | [] => return .zero
  | s :: rest => do
    let first ← countStatement (followStmt u func s)
    return first.add (← flowStmts u func rest)

def flowDecl (u : TranslationUnit) (id : DeclId) : Op FlowSummary := do
  let d ← u.decl id
  match d.init?, d.body? with
  | some init, _ => countStatement (followInitializer u .declaration id init)
  | none, some body => return FlowSummary.add ⟨1, 0, 0⟩ (← flowStmts u id (Stmt.unblocked body))
  | none, none => return .zero

def flowDecls (u : TranslationUnit) : List DeclId → Op FlowSummary
  | [] => return .zero
  | id :: rest => do
    let first ← flowDecl u id
    return first.add (← flowDecls u rest)

def flow (u : TranslationUnit) : Op FlowSummary := flowDecls u u.topLevel

end Session

end CheckedPointers
