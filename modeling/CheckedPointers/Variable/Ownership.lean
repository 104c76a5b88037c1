import CheckedPointers.Variable.Basic

/-!
What a variable owns, and what two variables have in common once they are equated. Both walks go
from a variable to older ones, so the id of the first bounds their length; they have no answer
when an id names no variable.
-/
namespace CheckedPointers

namespace Arena

/-- The atoms of a variable in at most `n` steps down. -/
def atomsWithin (arena : Arena) : Nat → VarId → Option (List Atom)
  | 0, _ => none
  | n + 1, v => do
    match ← arena[v]? with
    | .pointer p =>
      match p.function with
      | some f => return p.atoms ++ (← arena.atomsWithin n f)
      | none => return p.atoms
    | .function f =>
      let owned ← (f.slots.flatMap VarSet.members).mapM (arena.atomsWithin n)
      return owned.flatten

/-- Every atom that a variable owns: its own levels, then those of the function it points to; or
those of the returns, then those of the parameters. -/
def atoms? (arena : Arena) (v : VarId) : Option (List Atom) := arena.atomsWithin (v + 1) v

def crossWith (eqs : VarId → VarId → Option (List (Atom × Atom))) (s t : VarSet) :
    Option (List (Atom × Atom)) := do
  let owed ← (s.members.flatMap fun x => t.members.map (x, ·)).mapM fun p => eqs p.1 p.2
  return owed.flatten

def equationsWithin (arena : Arena) : Nat → VarId → VarId → Option (List (Atom × Atom))
  | 0, _, _ => none
  | n + 1, a, b =>
    if a = b then some []
    else do
      match ← arena[a]?, ← arena[b]? with
      | .pointer p, .pointer q =>
        match p.function, q.function with
        | some f, some g => return p.atoms.zip q.atoms ++ (← arena.equationsWithin n f g)
        | _, _ => return p.atoms.zip q.atoms
      | .function f, .function g =>
        let returns ← crossWith (arena.equationsWithin n) f.returns g.returns
        if f.params.length = g.params.length then
          let params ← (f.params.zip g.params).mapM fun s =>
            crossWith (arena.equationsWithin n) s.1 s.2
          return returns ++ params.flatten
        else return returns
      | .pointer p, .function g =>
        match p.function with
        | some f => arena.equationsWithin n f b
        | none => crossWith (arena.equationsWithin n) (.singleton a) g.returns
      | .function f, .pointer q =>
        match q.function with
        | some g => arena.equationsWithin n g a
        | none => crossWith (arena.equationsWithin n) (.singleton b) f.returns

/-- The pairs of atoms that solve alike once two variables are equated. Two pointers are paired
level by level from the outside as far as both go, and so are the functions they point to; two
functions share their returns, and their parameters if they have as many; a pointer and a
function agree through the function pointed to, or else through the returns. -/
def equations? (arena : Arena) (a b : VarId) : Option (List (Atom × Atom)) :=
  arena.equationsWithin (a + b + 1) a b

end Arena

end CheckedPointers
