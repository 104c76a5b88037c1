import CheckedPointers.CType.Basic

/-!
Expressions of a translation unit. An expression names its operands and the declarations it refers
to by their positions in the unit.
-/
namespace CheckedPointers

/-- A declaration, named by its position in its unit. -/
abbrev DeclId := Nat

abbrev ExprId := Nat

inductive BinaryOp where
  | assign
  | add
  | sub
  | mul
  | div
  | lt
  | gt
  | eq
  | ne
  | and
  | or
  | comma
  deriving DecidableEq

inductive UnaryOp where
  | deref
  | addrOf
  | neg
  | not
  deriving DecidableEq

inductive Expr where
  | declRef (decl : DeclId)
  | member (base : ExprId) (field : DeclId)
  | binary (op : BinaryOp) (lhs rhs : ExprId)
  | unary (op : UnaryOp) (operand : ExprId)
  | subscript (base index : ExprId)
  | call (callee : ExprId) (args : List ExprId)
  | conditional (cond whenTrue whenFalse : ExprId)
  | stringLiteral (value : String)
  | intLiteral (value : Int)
  | paren (inner : ExprId)
  | implicitCast (inner : ExprId)
  | bindTemporary (inner : ExprId)
  | cast (ty : CType) (inner : ExprId)
  | sizeOf (ty : CType)

namespace Expr

/-- Direct operands, in the order of evaluation. -/
def operands : Expr → List ExprId
  | binary _ lhs rhs => [lhs, rhs]
  | subscript base index => [base, index]
  | call callee args => callee :: args
  | conditional cond whenTrue whenFalse => [cond, whenTrue, whenFalse]
  | member inner _ | unary _ inner | paren inner | implicitCast inner | bindTemporary inner
  | cast _ inner => [inner]
  | declRef _ | stringLiteral _ | intLiteral _ | sizeOf _ => []

/-- The declaration that a name or a member access refers to. -/
def target? : Expr → Option DeclId
  | declRef decl => some decl
  | member _ field => some field
  | _ => none

/-- What parentheses or an implicit conversion wrap. -/
def unparen? : Expr → Option ExprId
  | paren inner | implicitCast inner => some inner
  | _ => none

/-- What parentheses or any conversion wrap. -/
def uncast? : Expr → Option ExprId
  | paren inner | implicitCast inner | cast _ inner => some inner
  | _ => none

end Expr

end CheckedPointers
