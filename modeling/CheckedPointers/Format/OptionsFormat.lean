import CheckedPointers.Json.Fields
import CheckedPointers.Json.Reader
import CheckedPointers.Options

/-!
Options as documents. A member that is left out keeps its default.
-/
namespace CheckedPointers

namespace Options

def toJson (o : Options) : Json :=
  .object [("mergeMultipleFuncDecls", .bool o.mergeDeclarations),
    ("externAllowList", .list (o.externAllowList.map .text)),
    ("maxRepairIterations", .nat o.maxRepairRounds)]

def ofJson? : Reader Options := fun n j => do
  let (n, fields) ← j.open? n
  return ⟨← Json.optional Json.asBool "mergeMultipleFuncDecls" default.mergeDeclarations n fields,
    ← Json.optional (Json.asList Json.asText) "externAllowList" default.externAllowList n fields,
    ← Json.optional (Json.asUnsigned 32) "maxRepairIterations" default.maxRepairRounds n fields⟩

def parse? (text : String) : Option Options := do
  ofJson? Json.nestingLimit (← Json.parse? text)

end Options

end CheckedPointers
