import CheckedPointers.Constraint.System
import CheckedPointers.CType.Basic
import CheckedPointers.VarSet

/-!
Constraint variables. A pointer variable has one atom for each level of indirection, a function
variable has variables for its returns and parameters, and a pointer to a function owns the
variable of what it points to. Variables name each other by their positions in one arena.
-/
namespace CheckedPointers

structure PointerVariable where
  /-- Outermost level first. -/
  atoms : List Atom
  /-- The type below all levels, as written in messages. -/
  baseType : String
  name : String
  /-- The function that the innermost level points to. -/
  function : Option VarId
  /-- Whether the outermost level was declared as an array. -/
  isArray : Bool
  /-- The bounds-safe interface written on the declaration. -/
  itype : Option String
  deriving DecidableEq

namespace PointerVariable

def dereferenced? (p : PointerVariable) : Option PointerVariable :=
  match p.atoms with
  | _ :: b :: rest => some { p with atoms := b :: rest }
  | _ => none

end PointerVariable

structure FunctionVariable where
  name : String
  returns : VarSet
  params : List VarSet
  hasBody : Bool
  hasPrototype : Bool
  /-- The declared signature. -/
  signature : Option Signature

namespace FunctionVariable

def unknown : FunctionVariable := ⟨"", .empty, [], false, false, none⟩

def slots (f : FunctionVariable) : List VarSet := f.returns :: f.params

end FunctionVariable

inductive Variable where
  | pointer (p : PointerVariable)
  | function (f : FunctionVariable)

namespace Variable

def name : Variable → String
  | pointer p => p.name
  | function f => f.name

def pointer? : Variable → Option PointerVariable
  | pointer p => some p
  | function _ => none

def function? : Variable → Option FunctionVariable
  | pointer _ => none
  | function f => some f

end Variable

abbrev Arena := Array Variable

namespace Arena

def pointer? (arena : Arena) (v : VarId) : Option PointerVariable := do (← arena[v]?).pointer?

def function? (arena : Arena) (v : VarId) : Option FunctionVariable := do (← arena[v]?).function?

def isPointer (arena : Arena) (v : VarId) : Bool := (arena.pointer? v).isSome

def isFunction (arena : Arena) (v : VarId) : Bool := (arena.function? v).isSome

/-- The function that a variable denotes: itself, or the one that it points to. -/
def reachable? (arena : Arena) (v : VarId) : Option VarId := do
  match ← arena[v]? with
  | .pointer p => p.function
  | .function _ => some v

def reachableFunction? (arena : Arena) (v : VarId) : Option FunctionVariable := do
  arena.function? (← arena.reachable? v)

end Arena

end CheckedPointers
