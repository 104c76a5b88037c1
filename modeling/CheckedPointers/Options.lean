/-!
What can be chosen about an analysis.
-/
namespace CheckedPointers

structure Options where
  /-- Equate the signatures of bodiless declarations of one name. -/
  mergeDeclarations : Bool
  /-- Bodiless functions that are safe by convention. -/
  externAllowList : List String
  /-- The largest number of rounds of solving and repair. -/
  maxRepairRounds : Nat
  deriving DecidableEq

namespace Options

def default : Options := ⟨true, ["malloc", "free"], 64⟩

def allows (o : Options) (name : String) : Bool := o.externAllowList.contains name

end Options

end CheckedPointers
