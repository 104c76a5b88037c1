/-!
Violations of a caller's obligations: an id that names nothing, or a step out of turn.
-/
namespace CheckedPointers

inductive Fault where
  /-- An id lies outside its arena. -/
  | unknownId
  /-- Parentheses and casts wrap an expression in itself. -/
  | endlessWrapping (expr : Nat)
  | unitStillOpen (entering opened : String)
  | noOpenUnit
  | otherUnitOpen (used opened : String)
  | unitClosed (used : String)
  | linkWhileOpen
  | notAFunction (name : String)
  | notACandidate (name : String)
  deriving DecidableEq

namespace Fault

def message : Fault → String
  | unknownId => "an id names nothing in its arena"
  | endlessWrapping expr => "expression #" ++ expr.repr ++ " wraps itself"
  | unitStillOpen entering opened =>
    "cannot enter unit '" ++ entering ++ "' while unit '" ++ opened ++ "' is still open"
  | noOpenUnit => "exit_compilation_unit called with no open unit"
  | otherUnitOpen used opened => "unit '" ++ used ++ "' used while unit '" ++ opened ++ "' is open"
  | unitClosed used => "unit '" ++ used ++ "' used while no unit is open"
  | linkWhileOpen => "link called while a unit is still open"
  | notAFunction name => "'" ++ name ++ "' is not a function declaration"
  | notACandidate name =>
    "size expression recorded for '" ++ name ++ "', which is not an array candidate"

end Fault

end CheckedPointers
