import CheckedPointers.Constraint.Solution
import CheckedPointers.Options
import CheckedPointers.Pairing
import CheckedPointers.Source.Unit
import CheckedPointers.Variable.Basic

/-!
The analysis session: every table that outlives a translation unit, the state of the unit being
visited, and the operations that change them. An operation that fails keeps what it had changed.
-/
namespace CheckedPointers

/-- What is known of the unit being visited. Expression ids are meaningful only inside it. -/
structure OpenUnit where
  id : Nat
  file : String
  /-- Declarations assigned from a sized allocation, with the sizes seen, in the order found. -/
  candidates : List (DeclId × List ExprId)
  /-- The variable made for each string literal. -/
  literals : OrderedMap ExprId VarId
  /-- The variable made for each call whose target is unknown. -/
  unknownCallees : OrderedMap ExprId VarId

structure Session where
  options : Options
  solver : ConstraintSystem
  pairing : Pairing
  arena : Arena
  /-- The variables of each declaration. -/
  index : OrderedMap Anchor VarSet
  /-- The function variables of each global name. -/
  globals : OrderedMap String VarSet
  /-- Whether a body was seen for each global function name. -/
  externs : OrderedMap String Bool
  /-- Signatures made for functions without a prototype. -/
  implicits : OrderedMap FunctionKey VarSet
  /-- Each variable's own variable one dereference down, if it has one. -/
  pointees : OrderedMap VarId (Option VarId)
  opened : Option OpenUnit

inductive ParameterError where
  /-- A parameter declaration with no owning function. -/
  | ownerless (anchor : Anchor)
  /-- A parameter seen from inside a body that the unit does not have. -/
  | undefined (function : String)
  deriving DecidableEq

namespace ParameterError

def message : ParameterError → String
  | ownerless anchor => "parameter at " ++ anchor.display ++ " has no owning function"
  | undefined function => "function '" ++ function ++ "' has no definition in this unit"

end ParameterError

inductive ShapeError where
  /-- The callee names something that is not a variable, field, parameter or function. -/
  | uncallable (anchor : Anchor)
  /-- A dereference of something that denotes a function. -/
  | functionDereferenced (expr : ExprId)
  | parameter (error : ParameterError)
  /-- The expression nests too deeply. -/
  | tooDeep (expr : ExprId)
  deriving DecidableEq

namespace ShapeError

def message : ShapeError → String
  | uncallable anchor => "call target declared at " ++ anchor.display ++ " is not callable"
  | functionDereferenced expr => "expression #" ++ expr.repr ++ " dereferences a function"
  | parameter error => error.message
  | tooDeep expr => "expression #" ++ expr.repr ++ " nests too deeply to resolve"

end ShapeError

/-- Why an operation has no answer: its caller broke a rule, or the program has a shape that
cannot be interpreted. -/
inductive Failure where
  | fault (f : Fault)
  | unresolved (e : ShapeError)

abbrev Op := ExceptT Failure (StateM Session)

namespace Op

instance : MonadLift (Except Fault) Op where
  monadLift
    | .ok a => pure a
    | .error f => throw (.fault f)

def fault (f : Fault) : Op α := throw (.fault f)

def unresolved (e : ShapeError) : Op α := throw (.unresolved e)

def known : Option α → Op α
  | some a => pure a
  | none => fault .unknownId

/-- The second operation runs on what the first left, unless the first failed. -/
theorem bind_run (x : Op α) (f : α → Op β) (s : Session) :
    (x >>= f) s =
      match x s with
      | (.ok a, s') => f a s'
      | (.error e, s') => (.error e, s') := by
  show (match x s with | (r, s') => ExceptT.bindCont f r s') = _
  rcases x s with ⟨_ | _, _⟩ <;> rfl

/-- The handler runs on what a failed operation left. -/
theorem tryCatch_run (x : Op α) (h : Failure → Op α) (s : Session) :
    (tryCatch x h) s =
      match x s with
      | (.ok a, s') => (.ok a, s')
      | (.error e, s') => h e s' := by
  simp only [tryCatch, tryCatchThe, MonadExceptOf.tryCatch, ExceptT.tryCatch, ExceptT.mk, bind,
    StateT.bind]
  rcases x s with ⟨_ | _, _⟩ <;> rfl

theorem get_run (s : Session) : (get : Op Session) s = (.ok s, s) := rfl

/-- Whether an operation ran to its end; that it met an unresolvable shape is no failure. -/
def attempt (x : Op PUnit) : Op Bool :=
  tryCatch (do x; pure true) fun
    | .unresolved _ => pure false
    | .fault f => fault f

/-- An attempt says whether its operation ended; a broken rule stays one. -/
theorem attempt_run (x : Op PUnit) (s : Session) :
    attempt x s =
      match x s with
      | (.ok _, s') => (.ok true, s')
      | (.error (.unresolved _), s') => (.ok false, s')
      | (.error (.fault f), s') => (.error (.fault f), s') := by
  rw [attempt, tryCatch_run, bind_run]
  rcases x s with ⟨(_ | _) | _, _⟩ <;> rfl

end Op

namespace Session

def new (options : Options) : Session :=
  ⟨options, .empty, .empty, #[], .empty, .empty, .empty, .empty, .empty, none⟩

def enter (u : TranslationUnit) : Op PUnit := do
  match (← get).opened with
  | some o => Op.fault (.unitStillOpen u.file o.file)
  | none => modify fun s => { s with opened := some ⟨u.id, u.file, [], .empty, .empty⟩ }

/-- Ends the visit of the open unit and forgets what was known of it. -/
def exit : Op PUnit := do
  match (← get).opened with
  | some _ => modify fun s => { s with opened := none }
  | none => Op.fault .noOpenUnit

/-- What is known of a unit, which must be the open one. -/
def current (u : TranslationUnit) : Op OpenUnit := do
  match (← get).opened with
  | some o =>
    if o.id = u.id ∧ o.file = u.file then return o
    else Op.fault (.otherUnitOpen u.file o.file)
  | none => Op.fault (.unitClosed u.file)

def requireOpen (u : TranslationUnit) : Op PUnit := do
  let _ ← current u

def setOpen (o : OpenUnit) : Op PUnit := modify fun s => { s with opened := some o }

def freshAtom : Op Atom :=
  modifyGet fun s =>
    let (a, solver) := s.solver.fresh
    (a, { s with solver })

def freshAtoms : Nat → Op (List Atom)
  | 0 => return []
  | n + 1 => do
    let a ← freshAtom
    return a :: (← freshAtoms n)

def allocate (v : Variable) : Op VarId :=
  modifyGet fun s => (s.arena.size, { s with arena := s.arena.push v })

def addConstraint (c : Constraint) : Op Bool := do
  let (result, solver) := (← get).solver.add c
  modify fun s => { s with solver }
  match result with
  | .ok isNew => return isNew
  | .error f => Op.fault f

def storedAt (s : Session) (anchor : Anchor) : VarSet := (s.index.find? anchor).getD .empty

def store (anchor : Anchor) (vs : VarSet) : Op PUnit :=
  modify fun s => { s with index := s.index.insert anchor ((s.storedAt anchor).union vs) }

def updatePairing (f : Pairing → Pairing) : Op PUnit :=
  modify fun s => { s with pairing := f s.pairing }

def solve : Op Solution := return (← get).solver.solve

end Session

end CheckedPointers
