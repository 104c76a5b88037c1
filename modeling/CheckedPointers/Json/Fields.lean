import CheckedPointers.Json.Basic

/-!
Taking typed values out of a document. A reader is given the number of nested lists and objects
that it may still open.
-/
namespace CheckedPointers

/-- A reader of `α`: the levels that may still be opened, and the document. -/
abbrev Reader (α : Type) := Nat → Json → Option α

namespace Json

def nestingLimit : Nat := 127

def asBool : Reader Bool
  | _, bool b => some b
  | _, _ => none

def asText : Reader String
  | _, text s => some s
  | _, _ => none

def asUnsigned (bits : Nat) : Reader Nat
  | _, int i => if 0 ≤ i ∧ i.toNat < Nat.pow 2 bits then some i.toNat else none
  | _, _ => none

def asSigned64 : Reader Int
  | _, int i => if -9223372036854775808 ≤ i ∧ i < 9223372036854775808 then some i else none
  | _, _ => none

def asOption (read : Reader α) : Reader (Option α)
  | _, null => some none
  | n, j => (read n j).map some

def asList (read : Reader α) : Reader (List α)
  | n + 1, list items => items.mapM (read n)
  | _, _ => none

/-- The members of an object, none of them torn, and the levels left inside it. -/
def open? : Nat → Json → Option (Nat × List (String × Json))
  | n + 1, object fields => some (n, fields)
  | _, _ => none

def valuesOf (name : String) (fields : List (String × Json)) : List Json :=
  (fields.filter fun f => f.1 = name).map (·.2)

def required (read : Reader α) (name : String) (n : Nat) (fields : List (String × Json)) :
    Option α :=
  match valuesOf name fields with
  | [j] => read n j
  | _ => none

/-- The value of a member that may be left out but not repeated. -/
def optional (read : Reader α) (name : String) (default : α) (n : Nat)
    (fields : List (String × Json)) : Option α :=
  match valuesOf name fields with
  | [] => some default
  | [j] => read n j
  | _ => none

end Json

end CheckedPointers
