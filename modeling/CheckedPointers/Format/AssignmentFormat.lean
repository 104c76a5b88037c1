import CheckedPointers.Format.UnitFormat
import CheckedPointers.Variable.Report

/-!
Assignments as documents. What a pointer does not have is left out of its report.
-/
namespace CheckedPointers

def Category.toJson (c : Category) : Json := .text c.code

namespace Report

def member? (name : String) : Option Json → List (String × Json)
  | some j => [(name, j)]
  | none => []

mutual

def toJson : Report → Json
  | pointer name baseType categories isArray itype pointee =>
    .object ([("kind", .text "pointer"), ("name", .text name), ("base_type", .text baseType),
      ("categories", .list (categories.map Category.toJson))] ++
      (if isArray then [("is_array", .bool true)] else []) ++
      member? "itype" (itype.map .text) ++ member? "function" (toJsonOption pointee))
  | function name returns params hasBody =>
    .object [("kind", .text "function"), ("name", .text name),
      ("returns", .list (toJsonAll returns)), ("params", .list (toJsonSlots params)),
      ("has_body", .bool hasBody)]

def toJsonOption : Option Report → Option Json
  | some r => some r.toJson
  | none => none

def toJsonAll : List Report → List Json
  | [] => []
  | r :: rest => r.toJson :: toJsonAll rest

def toJsonSlots : List (List Report) → List Json
  | [] => []
  | slot :: rest => .list (toJsonAll slot) :: toJsonSlots rest

end

end Report

namespace CategoryTally

def toJson (c : CategoryTally) : Json :=
  .object [("ptr", .nat c.ptr), ("arr", .nat c.arr), ("ntArr", .nat c.ntArr),
    ("wild", .nat c.wild)]

end CategoryTally

namespace Assignment

def toJson (a : Assignment) : Json :=
  .object [
    ("variables", .list (a.indexed.map fun e =>
      .object [("anchor", e.1.toJson), ("variables", .list (Report.toJsonAll e.2))])),
    ("onDemand", .list (a.implicits.map fun e =>
      .object [("key", .text e.1.text), ("variables", .list (Report.toJsonAll e.2))])),
    ("counts", a.tally.toJson)]

end Assignment

end CheckedPointers
