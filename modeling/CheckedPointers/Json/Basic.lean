/-!
JSON documents. A document keeps its members in order with their repetitions, and keeps of a
number only what its readers may ask for.
-/
namespace CheckedPointers

inductive Json where
  | null
  | bool (b : Bool)
  /-- A number written without fraction or exponent that fits in 64 bits, other than `-0`. -/
  | int (i : Int)
  /-- Any other number; `finite` says whether it is read without overflow. -/
  | decimal (finite : Bool)
  | text (s : String)
  /-- A string literal, or an object with a member name, in which an escape spells half of a
  surrogate pair. It can be skipped but not read. -/
  | torn
  | list (items : List Json)
  | object (fields : List (String × Json))

namespace Json

def nat (n : Nat) : Json := int n

def option (f : α → Json) : Option α → Json
  | some a => f a
  | none => null

mutual

def depth : Json → Nat
  | list items => depthAll items + 1
  | object fields => depthFields fields + 1
  | _ => 0

def depthAll : List Json → Nat
  | [] => 0
  | j :: rest => max j.depth (depthAll rest)

def depthFields : List (String × Json) → Nat
  | [] => 0
  | (_, j) :: rest => max j.depth (depthFields rest)

end

mutual

/-- Whether every literal of the document has a value. -/
def readable : Json → Bool
  | decimal finite => finite
  | torn => false
  | list items => readableAll items
  | object fields => readableFields fields
  | null | bool _ | int _ | text _ => true

def readableAll : List Json → Bool
  | [] => true
  | j :: rest => j.readable && readableAll rest

def readableFields : List (String × Json) → Bool
  | [] => true
  | (_, j) :: rest => j.readable && readableFields rest

end

mutual

/-- The document with the last of several members of one name kept in each object. -/
def lastWins : Json → Json
  | list items => list (lastWinsAll items)
  | object fields => object (lastWinsFields fields)
  | j => j

def lastWinsAll : List Json → List Json
  | [] => []
  | j :: rest => j.lastWins :: lastWinsAll rest

def lastWinsFields : List (String × Json) → List (String × Json)
  | [] => []
  | (k, j) :: rest =>
    if rest.any fun f => f.1 = k then lastWinsFields rest
    else (k, j.lastWins) :: lastWinsFields rest

end

end Json

end CheckedPointers
