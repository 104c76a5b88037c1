import CheckedPointers.Anchor
import CheckedPointers.Source.Expr

/-!
Declarations and statements of a translation unit.
-/
namespace CheckedPointers

inductive Stmt where
  | expr (expr : ExprId)
  | ret (value : Option ExprId)
  /-- A local declaration; its initializer is kept with the declaration. -/
  | decl (decl : DeclId)
  | block (stmts : List Stmt)

namespace Stmt

mutual

def weight : Stmt → Nat
  | block stmts => weightAll stmts + 1
  | _ => 1

def weightAll : List Stmt → Nat
  | [] => 0
  | s :: rest => s.weight + weightAll rest

end

theorem weightAll_append (ss ts : List Stmt) :
    weightAll (ss ++ ts) = weightAll ss + weightAll ts := by
  induction ss with
  | nil => simp [weightAll]
  | cons s ss ih => simp [weightAll, ih, Nat.add_assoc]

/-- The statements other than blocks in source order: a block that comes first is opened in
place. -/
def unblocked : List Stmt → List Stmt
  | [] => []
  | block stmts :: rest => unblocked (stmts ++ rest)
  | s :: rest => s :: unblocked rest
termination_by ss => weightAll ss
decreasing_by
  · simp only [weightAll, weight, weightAll_append]; omega
  · cases s <;> simp [weightAll, weight]

end Stmt

inductive DeclKind where
  | var (ty : CType) (isGlobal : Bool) (itype : Option String) (init : Option ExprId)
  | field (ty : CType) (itype : Option String)
  /-- The body of a definition is a list of statements. -/
  | function (signature : Signature) (params : List DeclId) (isGlobal : Bool)
      (body : Option (List Stmt))
  | param (ty : CType) (owner : Option DeclId) (itype : Option String)
  | typedef (ty : CType)
  | enumConstant (value : Int)

structure Decl where
  name : String
  anchor : Anchor
  inMacro : Bool
  kind : DeclKind

namespace Decl

def ty? (d : Decl) : Option CType :=
  match d.kind with
  | .var ty .. | .field ty _ | .param ty .. | .typedef ty => some ty
  | .function signature .. => some signature.toType
  | .enumConstant _ => none

/-- The bounds-safe interface written on the declaration. -/
def itype? (d : Decl) : Option String :=
  match d.kind with
  | .var _ _ itype _ | .field _ itype | .param _ _ itype => itype
  | _ => none

/-- Variables, fields, parameters and functions can carry constraint variables. -/
def isDeclarator (d : Decl) : Bool :=
  match d.kind with
  | .var .. | .field .. | .function .. | .param .. => true
  | _ => false

def isFunction (d : Decl) : Bool :=
  match d.kind with
  | .function .. => true
  | _ => false

def isParam (d : Decl) : Bool :=
  match d.kind with
  | .param .. => true
  | _ => false

def body? (d : Decl) : Option (List Stmt) :=
  match d.kind with
  | .function _ _ _ body => body
  | _ => none

def hasBody (d : Decl) : Bool := d.body?.isSome

def isGlobalFunction (d : Decl) : Bool :=
  match d.kind with
  | .function _ _ isGlobal _ => isGlobal
  | _ => false

def params (d : Decl) : List DeclId :=
  match d.kind with
  | .function _ params _ _ => params
  | _ => []

def owner? (d : Decl) : Option DeclId :=
  match d.kind with
  | .param _ owner _ => owner
  | _ => none

def init? (d : Decl) : Option ExprId :=
  match d.kind with
  | .var _ _ _ init => init
  | _ => none

/-- A declaration that a macro produced cannot be rewritten. -/
def isRewritable (d : Decl) : Bool := !d.inMacro

def unblocked (d : Decl) : List Stmt := Stmt.unblocked (d.body?.getD [])

def key (d : Decl) : FunctionKey := .of d.anchor.file d.anchor.line d.name

end Decl

end CheckedPointers
