/-!
Source anchors, the identity of a declaration across translation units, and the keys that pair a
function's declarations with its definition.
-/
namespace CheckedPointers

structure Anchor where
  file : String
  line : Nat
  column : Nat
  deriving DecidableEq

namespace Anchor

/-- An anchor is valid when it names a file and a line counted from one. -/
def isValid (a : Anchor) : Bool := a.file ≠ "" && 0 < a.line

def display (a : Anchor) : String := a.file ++ ":" ++ a.line.repr ++ ":" ++ a.column.repr

/-- Anchors are ordered by file, then line, then column. -/
instance : Ord Anchor where
  compare a b :=
    (compare a.file b.file).then ((compare a.line b.line).then (compare a.column b.column))

end Anchor

structure FunctionKey where
  text : String
  deriving DecidableEq

namespace FunctionKey

def of (file : String) (line : Nat) (name : String) : FunctionKey :=
  ⟨file ++ ":" ++ line.repr ++ ":" ++ name⟩

instance : Ord FunctionKey := ⟨fun a b => compare a.text b.text⟩

end FunctionKey

end CheckedPointers
