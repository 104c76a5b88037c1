/-!
C declarator types. A typedef carries what it stands for, and every question about the shape of a
type looks through it.
-/
namespace CheckedPointers

inductive CType where
  | builtin (name : String)
  | pointer (inner : CType)
  /-- The element count is `none` when the brackets are empty. -/
  | array (elem : CType) (size : Option Nat)
  /-- A function declared without a prototype says nothing of its parameters. -/
  | function (ret : CType) (params : List CType) (variadic hasPrototype : Bool)
  | record (name : String)
  | typedef (name : String) (underlying : CType)

structure Signature where
  ret : CType
  params : List CType
  variadic : Bool
  hasPrototype : Bool

namespace Signature

def toType (s : Signature) : CType := .function s.ret s.params s.variadic s.hasPrototype

end Signature

namespace CType

def int : CType := builtin "int"

def unaliased : CType → CType
  | typedef _ underlying => underlying.unaliased
  | ty => ty

def isPointer (ty : CType) : Bool :=
  match ty.unaliased with
  | pointer _ => true
  | _ => false

def isArray (ty : CType) : Bool :=
  match ty.unaliased with
  | array _ _ => true
  | _ => false

def isFunction (ty : CType) : Bool :=
  match ty.unaliased with
  | function .. => true
  | _ => false

def asFunction (ty : CType) : Option Signature :=
  match ty.unaliased with
  | function ret params variadic hasPrototype => some ⟨ret, params, variadic, hasPrototype⟩
  | _ => none

/-- The pointee or element type of one pointer or array level. -/
def pointee (ty : CType) : Option CType :=
  match ty.unaliased with
  | pointer inner => some inner
  | array elem _ => some elem
  | _ => none

def depth : CType → Nat
  | pointer inner => inner.depth + 1
  | array elem _ => elem.depth + 1
  | typedef _ underlying => underlying.depth
  | _ => 0

/-- The type below all pointer and array levels. A typedef that hides no level keeps its name. -/
def bottom : CType → CType
  | pointer inner => inner.bottom
  | array elem _ => elem.bottom
  | typedef name underlying =>
    if underlying.depth = 0 then typedef name underlying else underlying.bottom
  | ty => ty

mutual

/-- The type as written in messages, levels to the right of what they point to. -/
def display : CType → String
  | builtin name => name
  | pointer inner => inner.display ++ " *"
  | array elem (some n) => elem.display ++ " [" ++ n.repr ++ "]"
  | array elem none => elem.display ++ " []"
  | function ret params variadic _ =>
    ret.display ++ " (" ++ ", ".intercalate (displayAll params ++ if variadic then ["..."] else [])
      ++ ")"
  | record name => "struct " ++ name
  | typedef name _ => name

def displayAll : List CType → List String
  | [] => []
  | ty :: rest => ty.display :: displayAll rest

end

end CType

end CheckedPointers
