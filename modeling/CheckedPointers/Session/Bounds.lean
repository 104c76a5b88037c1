import CheckedPointers.Session.Basic
import CheckedPointers.Variable.Ownership

/-!
Constraints on variables, spelled out on their atoms.
-/
namespace CheckedPointers

namespace Session

/-- Bounds atoms from below and says whether some constraint was new. -/
def boundAtoms (c : Category) : List Atom → Op Bool
  | [] => return false
  | a :: rest => do
    let first ← addConstraint (.atLeast a c)
    let others ← boundAtoms c rest
    return first || others

def boundBelow (v : VarId) (c : Category) : Op Bool := do
  boundAtoms c (← Op.known ((← get).arena.atoms? v))

def boundAll (c : Category) : List VarId → Op Bool
  | [] => return false
  | v :: rest => do
    let first ← boundBelow v c
    let others ← boundAll c rest
    return first || others

def boundSet (s : VarSet) (c : Category) : Op Bool := boundAll c s.members

/-- Forces two variables to solve alike. -/
def equate (a b : VarId) : Op PUnit := do
  let equations ← Op.known ((← get).arena.equations? a b)
  equations.forM fun e => discard (addConstraint (.equal e.1 e.2))

def equateSets (s t : VarSet) : Op PUnit :=
  s.members.forM fun x => t.members.forM fun y => equate x y

end Session

end CheckedPointers
