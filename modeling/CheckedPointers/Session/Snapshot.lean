import CheckedPointers.Session.Basic
import CheckedPointers.Variable.Report

/-!
The assignment of a session: what solved categories say of every indexed declaration and every
signature made on demand.
-/
namespace CheckedPointers

namespace Session

def reports (s : Session) (sol : Solution) (set : VarSet) : Option (List Report) :=
  set.members.mapM (s.arena.report? sol)

def reportEntries (s : Session) (sol : Solution) (m : OrderedMap κ VarSet) :
    Option (List (κ × List Report)) :=
  m.entries.mapM fun e => (s.reports sol e.2).map (e.1, ·)

def assignment? (s : Session) (sol : Solution) : Option Assignment := do
  return ⟨← s.reportEntries sol s.index, ← s.reportEntries sol s.implicits, sol.tally⟩

def assignment (sol : Solution) : Op Assignment := do
  Op.known ((← get).assignment? sol)

end Session

end CheckedPointers
