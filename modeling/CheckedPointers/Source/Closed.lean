import CheckedPointers.Source.Unit

/-!
Which units are closed: every id names something in the unit, every operand precedes the
expression that uses it, and no expression is an operand twice.
-/
namespace CheckedPointers

inductive Reference where
  | decl (d : DeclId)
  | expr (e : ExprId)
  deriving DecidableEq

inductive Defect where
  | danglingDecl (d : DeclId)
  | danglingExpr (e : ExprId)
  /-- An operand does not precede the expression that uses it. -/
  | cyclicExpr (e : ExprId)
  /-- An expression is an operand twice. -/
  | sharedExpr (e : ExprId)
  deriving DecidableEq

namespace Defect

def message (file : String) : Defect → String
  | danglingDecl d => "unit '" ++ file ++ "' refers to missing declaration #" ++ d.repr
  | danglingExpr e => "unit '" ++ file ++ "' refers to missing expression #" ++ e.repr
  | cyclicExpr e =>
    "expression #" ++ e.repr ++ " of unit '" ++ file ++ "' has an operand that does not precede it"
  | sharedExpr e =>
    "expression #" ++ e.repr ++ " of unit '" ++ file ++
      "' is the operand of more than one expression"

end Defect

def Stmt.reference? : Stmt → Option Reference
  | expr e => some (.expr e)
  | ret value => value.map .expr
  | decl d => some (.decl d)
  | block _ => none

/-- What a declaration refers to, in the order in which it is checked. -/
def Decl.references (d : Decl) : List Reference :=
  d.init?.toList.map .expr ++ d.owner?.toList.map .decl ++ d.params.map .decl ++
    d.unblocked.filterMap Stmt.reference?

namespace TranslationUnit

def checkReference (u : TranslationUnit) : Reference → Except Defect Unit
  | .decl d => if d < u.decls.size then .ok () else .error (.danglingDecl d)
  | .expr e => if e < u.exprs.size then .ok () else .error (.danglingExpr e)

/-- Checks the operands of expression `parent` against the operands `used` before, and answers
all operands used so far. -/
def checkOperands (u : TranslationUnit) (parent : ExprId) :
    List ExprId → List ExprId → Except Defect (List ExprId)
  | used, [] => .ok used
  | used, child :: rest => do
    u.checkReference (.expr child)
    if parent ≤ child then throw (.cyclicExpr parent)
    if used.contains child then throw (.sharedExpr child)
    u.checkOperands parent (child :: used) rest

def checkExprs (u : TranslationUnit) :
    ExprId → List ExprId → List Expr → Except Defect Unit
  | _, _, [] => .ok ()
  | parent, used, e :: rest => do
    e.target?.toList.forM fun d => u.checkReference (.decl d)
    let used ← u.checkOperands parent used e.operands
    u.checkExprs (parent + 1) used rest

/-- The first defect of a unit, if it is not closed: file scope first, then declarations, then
expressions. -/
def checkClosed (u : TranslationUnit) : Except Defect Unit := do
  u.topLevel.forM fun d => u.checkReference (.decl d)
  u.decls.toList.forM fun d => d.references.forM u.checkReference
  u.checkExprs 0 [] u.exprs.toList

end TranslationUnit

end CheckedPointers
