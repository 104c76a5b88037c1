import CheckedPointers.Session.Flow
import CheckedPointers.Session.Linking
import CheckedPointers.Session.Repair
import CheckedPointers.Session.Snapshot

/-!
The analysis of a whole program: index every unit, follow its values, link, then solve and repair
until nothing changes.
-/
namespace CheckedPointers

structure Settled where
  sol : Solution
  /-- Rounds of repair, the last one included. -/
  rounds : Nat
  /-- Whether the last round changed nothing. -/
  converged : Bool

structure Outcome where
  settled : Settled
  assignment : Assignment
  link : LinkSummary
  flow : FlowSummary

namespace Session

/-- At most `n` further rounds of repair and solving after `rounds` of them. -/
def settleFrom : Nat → Nat → Solution → Op Settled
  | 0, rounds, sol => return ⟨sol, rounds, false⟩
  | n + 1, rounds, sol => do
    if ← repair sol then settleFrom n (rounds + 1) (← solve)
    else return ⟨sol, rounds + 1, true⟩

/-- Solves and repairs for at most `bound` rounds. -/
def settle (bound : Nat) : Op Settled := do settleFrom bound 0 (← solve)

def flowUnits : List TranslationUnit → Op FlowSummary
  | [] => return .zero
  | u :: rest => do
    enter u
    let first ← flow u
    exit
    return first.add (← flowUnits rest)

/-- Analyses units together. At least one round of repair is made. -/
def analyse (units : List TranslationUnit) : Op Outcome := do
  units.forM fun u => discard (indexUnit u)
  let flow ← flowUnits units
  let link ← link
  let settled ← settle (max (← get).options.maxRepairRounds 1)
  return ⟨settled, ← assignment settled.sol, link, flow⟩

end Session

end CheckedPointers
