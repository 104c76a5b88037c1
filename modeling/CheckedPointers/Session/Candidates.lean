import CheckedPointers.Session.Basic

/-!
Evidence that a declaration is used as an array, kept while its unit is open.
-/
namespace CheckedPointers

namespace OpenUnit

def isCandidate (o : OpenUnit) (d : DeclId) : Bool := o.candidates.any fun c => c.1 = d

def addCandidate (o : OpenUnit) (d : DeclId) : OpenUnit :=
  if o.isCandidate d then o else { o with candidates := o.candidates ++ [(d, [])] }

def addSize (o : OpenUnit) (d : DeclId) (size : ExprId) : OpenUnit :=
  { o with candidates := o.candidates.map fun c =>
      if c.1 = d ∧ size ∉ c.2 then (c.1, c.2 ++ [size]) else c }

end OpenUnit

namespace Session

def flagArray (u : TranslationUnit) (d : DeclId) : Op PUnit := do
  setOpen ((← current u).addCandidate d)

def isFlaggedArray (u : TranslationUnit) (d : DeclId) : Op Bool :=
  return (← current u).isCandidate d

/-- Records a plausible element count for a declaration that was flagged before. -/
def addArraySize (u : TranslationUnit) (d : DeclId) (size : ExprId) : Op PUnit := do
  let o ← current u
  if o.isCandidate d then setOpen (o.addSize d size)
  else Op.fault (.notACandidate (← u.decl d).name)

def arraySizes (u : TranslationUnit) : Op (List (DeclId × List ExprId)) :=
  return (← current u).candidates

end Session

end CheckedPointers
