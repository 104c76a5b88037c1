import CheckedPointers.Constraint.System

/-!
Solved categories: a snapshot of the store, one category an atom.
-/
namespace CheckedPointers

structure Solution where
  values : Array Category
  deriving DecidableEq

structure CategoryTally where
  ptr : Nat
  arr : Nat
  ntArr : Nat
  wild : Nat

namespace Solution

def empty : Solution := ⟨#[]⟩

/-- An atom younger than the snapshot is unconstrained as far as the snapshot knows. -/
def category (sol : Solution) (a : Atom) : Category := sol.values[a]?.getD .mostSafe

def anyWild (sol : Solution) (atoms : List Atom) : Bool :=
  atoms.any fun a => sol.category a = .leastSafe

/-- The least safe category among atoms, if there are any. -/
def leastSafe : (sol : Solution) → (atoms : List Atom) → Option Category
  | _, [] => none
  | sol, a :: rest => some (rest.foldl (fun c b => c.join (sol.category b)) (sol.category a))

def tally (sol : Solution) : CategoryTally :=
  let n (c : Category) : Nat := sol.values.countP fun v => v = c
  ⟨n .ptr, n .arr, n .ntArr, n .wild⟩

def Satisfies (value : Atom → Category) : Constraint → Prop
  | .equal a b => value a = value b
  | .atLeast a c => c ≤ value a

end Solution

namespace ConstraintSystem

def solve (s : ConstraintSystem) : Solution := ⟨s.cells.map Cell.bound⟩

end ConstraintSystem

end CheckedPointers
