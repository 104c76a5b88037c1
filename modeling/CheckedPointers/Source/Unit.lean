import CheckedPointers.Fault
import CheckedPointers.Source.Decl

/-!
Translation units and the questions asked of one: where a name is declared again, which function
owns a parameter, what a call names.
-/
namespace CheckedPointers

structure TranslationUnit where
  id : Nat
  /-- The main file. -/
  file : String
  decls : Array Decl
  exprs : Array Expr
  /-- The declarations at file scope, in source order. -/
  topLevel : List DeclId

namespace TranslationUnit

def decl (u : TranslationUnit) (d : DeclId) : Except Fault Decl :=
  match u.decls[d]? with
  | some decl => .ok decl
  | none => .error .unknownId

def expr (u : TranslationUnit) (e : ExprId) : Except Fault Expr :=
  match u.exprs[e]? with
  | some expr => .ok expr
  | none => .error .unknownId

/-- The first function declaration of a name that passes a test. -/
def findFunction? (u : TranslationUnit) (name : String) (p : Decl → Bool) : Option DeclId :=
  u.decls.findIdx? fun d => d.isFunction && d.name = name && p d

def functionsNamed (u : TranslationUnit) (name : String) : List DeclId :=
  (List.range u.decls.size).filter fun d =>
    match u.decls[d]? with
    | some decl => decl.isFunction && decl.name = name
    | none => false

/-- The first redeclaration of a function that is not a definition. -/
def prototypeOf (u : TranslationUnit) (func : DeclId) : Except Fault (Option DeclId) := do
  return u.findFunction? (← u.decl func).name fun d => !d.hasBody

def definitionFor (u : TranslationUnit) (func : DeclId) : Except Fault (Option DeclId) := do
  return u.findFunction? (← u.decl func).name Decl.hasBody

/-- The owning function of a parameter and its position there, if the owner lists it. -/
def parameterPosition (u : TranslationUnit) (param : DeclId) :
    Except Fault (Option (DeclId × Nat)) := do
  match (← u.decl param).owner? with
  | none => return none
  | some owner =>
    match u.decls[owner]? with
    | none => return none
    | some f => return (f.params.idxOf? param).map (owner, ·)

/-- Follows `wraps` from an expression to one that wraps nothing, in at most `n` looks. -/
def unwrapWithin (u : TranslationUnit) (wraps : Expr → Option ExprId) :
    Nat → ExprId → Except Fault ExprId
  | 0, e => .error (.endlessWrapping e)
  | n + 1, e => do
    match wraps (← u.expr e) with
    | some inner => u.unwrapWithin wraps n inner
    | none => return e

def unparen (u : TranslationUnit) (e : ExprId) : Except Fault ExprId :=
  u.unwrapWithin Expr.unparen? (u.exprs.size + 1) e

def uncast (u : TranslationUnit) (e : ExprId) : Except Fault ExprId :=
  u.unwrapWithin Expr.uncast? (u.exprs.size + 1) e

/-- The declaration that the callee of a call names, if it names one. -/
def namedCallee (u : TranslationUnit) (call : ExprId) : Except Fault (Option DeclId) := do
  match ← u.expr call with
  | .call callee _ => return (← u.expr (← u.unparen callee)).target?
  | _ => return none

/-- File-scope declarations, each followed by the local ones of its body. -/
def declarators (u : TranslationUnit) : Except Fault (List DeclId) := do
  let groups ← u.topLevel.mapM fun id => do
    let d ← u.decl id
    return id :: d.unblocked.filterMap fun
      | .decl inner => some inner
      | _ => none
  return groups.flatten

def keyOf (u : TranslationUnit) (d : DeclId) : Except Fault FunctionKey := do
  return (← u.decl d).key

/-- The key of a function: that of its definition if the unit has one. -/
def pairingKey (u : TranslationUnit) (func : DeclId) : Except Fault FunctionKey := do
  u.keyOf ((← u.definitionFor func).getD func)

end TranslationUnit

end CheckedPointers
