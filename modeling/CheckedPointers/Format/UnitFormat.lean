import CheckedPointers.Format.TypeFormat
import CheckedPointers.Source.Unit

/-!
Translation units as documents. Kinds of declarations, statements and expressions are objects with
a member that names the variant; such an object has to be readable as a whole, while members that
mean nothing elsewhere are passed over unread.
-/
namespace CheckedPointers

/-- The name of the variant and the members of an object that is readable as a whole. -/
def Json.variant? (tag : String) (n : Nat) (j : Json) :
    Option (Json × Nat × List (String × Json)) := do
  if !j.readable || n < j.depth then none
  let (n, fields) ← j.open? n
  match Json.valuesOf tag fields with
  | [name] => return (name, n, fields)
  | _ => none

namespace Anchor

def toJson (a : Anchor) : Json :=
  .object [("file", .text a.file), ("line", .nat a.line), ("column", .nat a.column)]

def ofJson? : Reader Anchor := fun n j => do
  let (n, fields) ← j.open? n
  return ⟨← Json.required Json.asText "file" n fields,
    ← Json.required (Json.asUnsigned 32) "line" n fields,
    ← Json.required (Json.asUnsigned 32) "column" n fields⟩

end Anchor

def Json.asId : Reader Nat := asUnsigned 32

namespace BinaryOp

def all : List BinaryOp := [assign, add, sub, mul, div, lt, gt, eq, ne, and, or, comma]

def code : BinaryOp → String
  | assign => "assign"
  | add => "add"
  | sub => "sub"
  | mul => "mul"
  | div => "div"
  | lt => "lt"
  | gt => "gt"
  | eq => "eq"
  | ne => "ne"
  | and => "and"
  | or => "or"
  | comma => "comma"

def ofCode? (text : String) : Option BinaryOp := all.find? fun op => op.code = text

end BinaryOp

namespace UnaryOp

def all : List UnaryOp := [deref, addrOf, neg, not]

def code : UnaryOp → String
  | deref => "deref"
  | addrOf => "addr_of"
  | neg => "neg"
  | not => "not"

def ofCode? (text : String) : Option UnaryOp := all.find? fun op => op.code = text

end UnaryOp

/-- A name out of a fixed set: a text, or an object that gives the name alone an empty value. -/
def Json.asName (ofCode? : String → Option α) : Reader α
  | _, text s => ofCode? s
  | _, object [(s, null)] | _, object [(s, object [])] => ofCode? s
  | _, _ => none

namespace Expr

def toJson : Expr → Json
  | declRef decl => .object [("expr", .text "decl_ref"), ("decl", .nat decl)]
  | member base field =>
    .object [("expr", .text "member"), ("base", .nat base), ("field", .nat field)]
  | binary op lhs rhs =>
    .object [("expr", .text "binary"), ("op", .text op.code), ("lhs", .nat lhs), ("rhs", .nat rhs)]
  | unary op operand =>
    .object [("expr", .text "unary"), ("op", .text op.code), ("operand", .nat operand)]
  | subscript base index =>
    .object [("expr", .text "subscript"), ("base", .nat base), ("index", .nat index)]
  | call callee args =>
    .object [("expr", .text "call"), ("callee", .nat callee), ("args", .list (args.map .nat))]
  | conditional cond whenTrue whenFalse =>
    .object [("expr", .text "conditional"), ("cond", .nat cond), ("then", .nat whenTrue),
      ("otherwise", .nat whenFalse)]
  | stringLiteral value => .object [("expr", .text "string_literal"), ("value", .text value)]
  | intLiteral value => .object [("expr", .text "int_literal"), ("value", .int value)]
  | paren inner => .object [("expr", .text "paren"), ("inner", .nat inner)]
  | implicitCast inner => .object [("expr", .text "implicit_cast"), ("inner", .nat inner)]
  | bindTemporary inner => .object [("expr", .text "bind_temporary"), ("inner", .nat inner)]
  | cast ty inner => .object [("expr", .text "cast"), ("ty", ty.toJson), ("inner", .nat inner)]
  | sizeOf ty => .object [("expr", .text "size_of"), ("ty", ty.toJson)]

def ofJson? : Reader Expr := fun n j => do
  let (tag, n, fields) ← j.variant? "expr" n
  let id (name : String) : Option ExprId := Json.required Json.asId name n fields
  let ty : Option CType := Json.required CType.ofJson? "ty" n fields
  match tag with
  | .text "decl_ref" => return declRef (← id "decl")
  | .text "member" => return member (← id "base") (← id "field")
  | .text "binary" =>
    let op ← Json.required (Json.asName BinaryOp.ofCode?) "op" n fields
    return binary op (← id "lhs") (← id "rhs")
  | .text "unary" =>
    let op ← Json.required (Json.asName UnaryOp.ofCode?) "op" n fields
    return unary op (← id "operand")
  | .text "subscript" => return subscript (← id "base") (← id "index")
  | .text "call" =>
    let args ← Json.optional (Json.asList Json.asId) "args" [] n fields
    return call (← id "callee") args
  | .text "conditional" => return conditional (← id "cond") (← id "then") (← id "otherwise")
  | .text "string_literal" => return stringLiteral (← Json.required Json.asText "value" n fields)
  | .text "int_literal" => return intLiteral (← Json.required Json.asSigned64 "value" n fields)
  | .text "paren" => return paren (← id "inner")
  | .text "implicit_cast" => return implicitCast (← id "inner")
  | .text "bind_temporary" => return bindTemporary (← id "inner")
  | .text "cast" => return cast (← ty) (← id "inner")
  | .text "size_of" => return sizeOf (← ty)
  | _ => none

end Expr

namespace Stmt

mutual

def toJson : Stmt → Json
  | expr e => .object [("stmt", .text "expr"), ("expr", .nat e)]
  | ret value => .object [("stmt", .text "return"), ("value", Json.option Json.nat value)]
  | decl d => .object [("stmt", .text "decl"), ("decl", .nat d)]
  | block stmts => .object [("stmt", .text "block"), ("stmts", .list (toJsonAll stmts))]

def toJsonAll : List Stmt → List Json
  | [] => []
  | s :: rest => s.toJson :: toJsonAll rest

end

inductive Variant where
  | expr
  | ret
  | decl
  | block

def Variant.ofTag? : Json → Option Variant
  | .text "expr" | .int 0 => some .expr
  | .text "return" | .int 1 => some .ret
  | .text "decl" | .int 2 => some .decl
  | .text "block" | .int 3 => some .block
  | _ => none

def ofJson? : Reader Stmt
  | n + 1, .object fields => do
    let tag ← Json.required (fun _ => Variant.ofTag?) "stmt" n fields
    match tag with
    | .expr => return expr (← Json.required Json.asId "expr" n fields)
    | .ret => return ret (← Json.optional (Json.asOption Json.asId) "value" none n fields)
    | .decl => return decl (← Json.required Json.asId "decl" n fields)
    | .block =>
      match n with
      | n + 1 =>
        return block (← Json.required (Json.asList fun _ => ofJson? n) "stmts" (n + 1) fields)
      | 0 => none
  | _, _ => none

end Stmt

namespace DeclKind

def toJson : DeclKind → Json
  | var ty isGlobal itype init =>
    .object [("kind", .text "var"), ("ty", ty.toJson), ("is_global", .bool isGlobal),
      ("itype", Json.option .text itype), ("init", Json.option Json.nat init)]
  | field ty itype =>
    .object [("kind", .text "field"), ("ty", ty.toJson), ("itype", Json.option .text itype)]
  | function signature params isGlobal body =>
    .object [("kind", .text "function"), ("ty", signature.toJson),
      ("params", .list (params.map .nat)), ("is_global", .bool isGlobal),
      ("body", Json.option (fun stmts => .list (Stmt.toJsonAll stmts)) body)]
  | param ty owner itype =>
    .object [("kind", .text "param"), ("ty", ty.toJson), ("owner", Json.option Json.nat owner),
      ("itype", Json.option .text itype)]
  | typedef ty => .object [("kind", .text "typedef"), ("ty", ty.toJson)]
  | enumConstant value => .object [("kind", .text "enum_constant"), ("value", .int value)]

def ofJson? : Reader DeclKind := fun n j => do
  let (tag, n, fields) ← j.variant? "kind" n
  let ty : Option CType := Json.required CType.ofJson? "ty" n fields
  let itype : Option (Option String) :=
    Json.optional (Json.asOption Json.asText) "itype" none n fields
  let id (name : String) : Option (Option Nat) :=
    Json.optional (Json.asOption Json.asId) name none n fields
  match tag with
  | .text "var" =>
    let isGlobal ← Json.optional Json.asBool "is_global" false n fields
    return var (← ty) isGlobal (← itype) (← id "init")
  | .text "field" => return field (← ty) (← itype)
  | .text "function" =>
    let signature ← Json.required Signature.ofJson? "ty" n fields
    let params ← Json.optional (Json.asList Json.asId) "params" [] n fields
    let isGlobal ← Json.optional Json.asBool "is_global" true n fields
    let body ← Json.optional (Json.asOption (Json.asList Stmt.ofJson?)) "body" none n fields
    return function signature params isGlobal body
  | .text "param" => return param (← ty) (← id "owner") (← itype)
  | .text "typedef" => return typedef (← ty)
  | .text "enum_constant" =>
    return enumConstant (← Json.required Json.asSigned64 "value" n fields)
  | _ => none

end DeclKind

namespace Decl

def toJson (d : Decl) : Json :=
  .object [("name", .text d.name), ("loc", d.anchor.toJson), ("in_macro", .bool d.inMacro),
    ("kind", d.kind.toJson)]

def ofJson? : Reader Decl := fun n j => do
  let (n, fields) ← j.open? n
  return ⟨← Json.required Json.asText "name" n fields,
    ← Json.required Anchor.ofJson? "loc" n fields,
    ← Json.optional Json.asBool "in_macro" false n fields,
    ← Json.required DeclKind.ofJson? "kind" n fields⟩

end Decl

namespace TranslationUnit

def toJson (u : TranslationUnit) : Json :=
  .object [("id", .nat u.id), ("file", .text u.file),
    ("decls", .list (u.decls.toList.map Decl.toJson)),
    ("exprs", .list (u.exprs.toList.map Expr.toJson)),
    ("top_level", .list (u.topLevel.map .nat))]

def ofJson? : Reader TranslationUnit := fun n j => do
  let (n, fields) ← j.open? n
  return ⟨← Json.optional Json.asId "id" 0 n fields,
    ← Json.required Json.asText "file" n fields,
    (← Json.required (Json.asList Decl.ofJson?) "decls" n fields).toArray,
    (← Json.optional (Json.asList Expr.ofJson?) "exprs" [] n fields).toArray,
    ← Json.optional (Json.asList Json.asId) "top_level" [] n fields⟩

end TranslationUnit

end CheckedPointers
