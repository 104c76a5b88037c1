import CheckedPointers.Anchor
import CheckedPointers.OrderedMap
import CheckedPointers.VarSet

/-!
Which definitions and declarations of functions belong together, by key. Definitions stand in the
order in which their keys were first seen.
-/
namespace CheckedPointers

structure Pairing where
  definitions : List (FunctionKey × VarSet)
  declarations : OrderedMap FunctionKey VarSet
  /-- From the key of a definition to that of its declaration. -/
  pairs : OrderedMap FunctionKey FunctionKey

namespace Pairing

def empty : Pairing := ⟨[], .empty, .empty⟩

/-- Adds a variable to the set of its key; a new key goes last. -/
def addTo (key : FunctionKey) (v : VarId) :
    List (FunctionKey × VarSet) → List (FunctionKey × VarSet)
  | [] => [(key, .singleton v)]
  | (k, s) :: rest => if key = k then (k, s.insert v) :: rest else (k, s) :: addTo key v rest

def define (r : Pairing) (key : FunctionKey) (v : VarId) : Pairing :=
  { r with definitions := addTo key v r.definitions }

def declared? (r : Pairing) (key : FunctionKey) : Option VarSet := r.declarations.find? key

def declare (r : Pairing) (key : FunctionKey) (v : VarId) : Pairing :=
  { r with declarations := r.declarations.insert key (((r.declared? key).getD .empty).insert v) }

/-- Links a definition with its declaration; the last link counts. -/
def pair (r : Pairing) (definition declaration : FunctionKey) : Pairing :=
  { r with pairs := r.pairs.insert definition declaration }

def pairedKey? (r : Pairing) (definition : FunctionKey) : Option FunctionKey :=
  r.pairs.find? definition

def paired? (r : Pairing) (definition : FunctionKey) : Option VarSet := do
  r.declared? (← r.pairedKey? definition)

end Pairing

end CheckedPointers
