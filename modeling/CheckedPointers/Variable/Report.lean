import CheckedPointers.Anchor
import CheckedPointers.Constraint.Solution
import CheckedPointers.Variable.Basic

/-!
Reports on variables: the solved categories of every level, and the assignment that collects the
reports of a whole program.
-/
namespace CheckedPointers

inductive Report where
  | pointer (name baseType : String) (categories : List Category) (isArray : Bool)
      (itype : Option String) (function : Option Report)
  | function (name : String) (returns : List Report) (params : List (List Report))
      (hasBody : Bool)

namespace Report

/-- The categories of a pointer, outermost level first; none for a function. -/
def categories : Report → List Category
  | pointer _ _ categories _ _ _ => categories
  | function .. => []

end Report

namespace Arena

def reportWithin (arena : Arena) (sol : Solution) : Nat → VarId → Option Report
  | 0, _ => none
  | n + 1, v => do
    match ← arena[v]? with
    | .pointer p =>
      let categories := p.atoms.map sol.category
      match p.function with
      | some f =>
        return .pointer p.name p.baseType categories p.isArray p.itype
          (some (← arena.reportWithin sol n f))
      | none => return .pointer p.name p.baseType categories p.isArray p.itype none
    | .function f =>
      let returns ← f.returns.members.mapM (arena.reportWithin sol n)
      let params ← f.params.mapM fun slot => slot.members.mapM (arena.reportWithin sol n)
      return .function f.name returns params f.hasBody

def report? (arena : Arena) (sol : Solution) (v : VarId) : Option Report :=
  arena.reportWithin sol (v + 1) v

end Arena

structure Assignment where
  indexed : List (Anchor × List Report)
  implicits : List (FunctionKey × List Report)
  tally : CategoryTally

namespace Assignment

def at? (a : Assignment) (anchor : Anchor) : Option (List Report) :=
  (a.indexed.find? fun e => e.1 = anchor).map (·.2)

end Assignment

end CheckedPointers
