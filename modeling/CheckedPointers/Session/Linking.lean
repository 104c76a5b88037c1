import CheckedPointers.Session.Bounds

/-!
Linking across units: variables that share an anchor are equated, bodiless declarations of one
name are equated, and functions whose body was never seen are forced to the least safe category.
-/
namespace CheckedPointers

structure LinkSummary where
  /-- Anchors with more than one variable. -/
  sharedAnchors : Nat
  /-- Pairs of bodiless declarations that were equated. -/
  mergedDeclarations : Nat
  /-- Pairs forced to the least safe category since their arities disagree. -/
  arityMismatches : Nat
  /-- Bodiless functions that are not allowed. -/
  unresolvedExterns : Nat
  newConstraints : Nat
  deriving DecidableEq

namespace Session

/-- Does something for each two neighbours of a list. -/
def chain (f : VarId → VarId → Op α) : List VarId → Op (List α)
  | a :: b :: rest => do
    let first ← f a b
    return first :: (← chain f (b :: rest))
  | _ => return []

def boundSignature (f : FunctionVariable) (c : Category) : Op PUnit :=
  f.slots.forM fun slot => discard (boundSet slot c)

/-- Equates two bodiless declarations, and says whether their arities could be reconciled. -/
def reconcile (a b : VarId) : Op Bool := do
  let arena := (← get).arena
  match arena.function? a, arena.function? b with
  | some f, some g =>
    equateSets f.returns g.returns
    if f.params.length = g.params.length then
      (f.params.zip g.params).forM fun slots => equateSets slots.1 slots.2
      return true
    else if f.hasPrototype && g.hasPrototype then
      boundSignature f .leastSafe
      boundSignature g .leastSafe
      return false
    else return true
  | _, _ => return true

def bodiless (arena : Arena) (variants : VarSet) : List VarId :=
  variants.members.filter fun v => (arena.function? v).any fun f => !f.hasBody

/-- The names whose body was never seen and that are not allowed, in order. -/
def unresolvedNames (s : Session) : List String :=
  (s.externs.entries.filter fun e => !e.2 && !s.options.allows e.1).map (·.1)

/-- Forces all variants of a name to the least safe category. -/
def boundName (name : String) : Op PUnit := do
  let variants := ((← get).globals.find? name).getD .empty
  variants.members.forM fun v => do
    match (← get).arena.function? v with
    | some f => boundSignature f .leastSafe
    | none => return ()

/-- Equates the declarations of each name where that was asked for, and says of each pair whether
it could be reconciled. -/
def mergeDeclarations : Op (List Bool) := do
  let s ← get
  if s.options.mergeDeclarations then
    let merged ← s.globals.values.mapM fun variants =>
      chain reconcile (bodiless s.arena variants)
    return merged.flatten
  else return []

/-- Links all units visited so far. No unit may be open. -/
def link : Op LinkSummary := do
  let s ← get
  if s.opened.isSome then Op.fault .linkWhileOpen
  else
    let shared := s.index.values.filter fun set => 1 < set.size
    shared.forM fun set => discard (chain equate set.members)
    let merged ← mergeDeclarations
    let names := s.unresolvedNames
    names.forM boundName
    return ⟨shared.length, merged.count true, merged.count false, names.length,
      (← get).solver.constraints.size - s.solver.constraints.size⟩

end Session

end CheckedPointers
