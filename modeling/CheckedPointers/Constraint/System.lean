import CheckedPointers.Category
import CheckedPointers.Fault

/-!
Constraints on atoms and the store that solves them. Atoms that were equated share a label, and
every atom carries the join of the lower bounds recorded for its label.
-/
namespace CheckedPointers

/-- The unknown category of one pointer level, named by its position in the store. -/
abbrev Atom := Nat

inductive Constraint where
  /-- Two atoms have one category. -/
  | equal (a b : Atom)
  /-- An atom is at least as unsafe as a category. -/
  | atLeast (a : Atom) (c : Category)
  deriving DecidableEq

namespace Constraint

/-- An equation with its smaller atom first. -/
def normalized : Constraint → Constraint
  | equal a b => if b < a then equal b a else equal a b
  | c => c

/-- An equation of an atom with itself says nothing. -/
def isTrivial : Constraint → Bool
  | equal a b => a = b
  | atLeast .. => false

end Constraint

/-- The class of an atom and the lower bound of that class. -/
structure Cell where
  label : Nat
  bound : Category
  deriving DecidableEq

/-- The atoms, and the constraints in the order in which they were recorded. -/
structure ConstraintSystem where
  cells : Array Cell
  constraints : Array Constraint

namespace Cell

def unite (x y c : Cell) : Cell :=
  if c.label = x.label ∨ c.label = y.label then ⟨x.label, x.bound.join y.bound⟩ else c

def raise (x : Cell) (bound : Category) (c : Cell) : Cell :=
  if c.label = x.label then ⟨c.label, c.bound.join bound⟩ else c

end Cell

namespace ConstraintSystem

def empty : ConstraintSystem := ⟨#[], #[]⟩

def fresh (s : ConstraintSystem) : Atom × ConstraintSystem :=
  (s.cells.size, { s with cells := s.cells.push ⟨s.cells.size, .mostSafe⟩ })

/-- The cells after a constraint, if all its atoms are there. -/
def cellsAfter? (cells : Array Cell) : Constraint → Option (Array Cell)
  | .equal a b => do
    let x ← cells[a]?
    let y ← cells[b]?
    return cells.map (Cell.unite x y)
  | .atLeast a bound => do
    let x ← cells[a]?
    return cells.map (Cell.raise x bound)

/-- Records a constraint and says whether it was new. One on an unknown atom is recorded before
it fails. -/
def add (s : ConstraintSystem) (c : Constraint) : Except Fault Bool × ConstraintSystem :=
  let c := c.normalized
  if c.isTrivial ∨ c ∈ s.constraints then (.ok false, s)
  else
    let constraints := s.constraints.push c
    match cellsAfter? s.cells c with
    | some cells => (.ok true, ⟨cells, constraints⟩)
    | none => (.error .unknownId, ⟨s.cells, constraints⟩)

end ConstraintSystem

end CheckedPointers
