import CheckedPointers.Session.Declare

/-!
What a declaration denotes, seen from a declaration or from inside a body. A function without a
prototype is seen through a signature made on demand.
-/
namespace CheckedPointers

/-- From where a declaration is looked at. Inside a body, a parameter is that of the definition;
elsewhere it is that of the declaration. -/
inductive Viewpoint where
  | declaration
  | body
  deriving DecidableEq

namespace Session

/-- The signature that stands for the declaration of a function, made at the first request for
its key. -/
def implicitPrototype (u : TranslationUnit) (func : DeclId) : Op VarSet := do
  requireOpen u
  let key ← u.pairingKey func
  match (← get).implicits.find? key with
  | some set => return set
  | none =>
    let v ← newFunction u ((← u.definitionFor func).getD func)
    updatePairing (·.declare key v)
    modify fun s => { s with implicits := s.implicits.insert key (.singleton v) }
    return .singleton v

def storedFor (u : TranslationUnit) (d : DeclId) : Op VarSet := do
  return (← get).storedAt (← u.decl d).anchor

/-- The variables stored for a parameter of a function. A function that lists fewer has none. -/
def storedParam (u : TranslationUnit) (func : DeclId) (i : Nat) : Op VarSet := do
  match (← u.decl func).params[i]? with
  | some p => storedFor u p
  | none => return .empty

def slotsOf (arena : Arena) (i : Nat) (functions : VarSet) : VarSet :=
  .ofList <| functions.members.flatMap fun v =>
    (((arena.function? v).bind fun f => f.params[i]?).getD .empty).members

def denoteFunction (u : TranslationUnit) (func : DeclId) : Op VarSet := do
  match ← u.prototypeOf func with
  | some declaration => storedFor u declaration
  | none => implicitPrototype u func

def denoteParam (u : TranslationUnit) (owner : DeclId) (i : Nat) : Viewpoint → Op VarSet
  | .body => do
    match ← u.definitionFor owner with
    | some definition => storedParam u definition i
    | none => Op.unresolved (.parameter (.undefined (← u.decl owner).name))
  | .declaration => do
    match ← u.prototypeOf owner with
    | some declaration => storedParam u declaration i
    | none =>
      let functions ← implicitPrototype u owner
      return slotsOf (← get).arena i functions

/-- The variables that a declaration denotes; none if it was never indexed. -/
def denoteDecl (u : TranslationUnit) (id : DeclId) (view : Viewpoint) : Op VarSet := do
  requireOpen u
  let d ← u.decl id
  if !(← get).index.contains d.anchor then return .empty
  else if d.isFunction then denoteFunction u id
  else if d.isParam then
    match ← u.parameterPosition id with
    | some (owner, i) => denoteParam u owner i view
    | none => Op.unresolved (.parameter (.ownerless d.anchor))
  else return (← get).storedAt d.anchor

end Session

end CheckedPointers
