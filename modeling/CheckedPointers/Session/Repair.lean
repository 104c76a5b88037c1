import CheckedPointers.Session.Bounds

/-!
Repair after solving. What a definition requires of its parameters reaches its declarations; what
a declaration promises of its return reaches the definition, and a definition whose return is
unchecked makes that of its declarations unchecked.
-/
namespace CheckedPointers

namespace Arena

/-- The levels of a pointer, or every atom below a function. -/
def levels (arena : Arena) (v : VarId) : List Atom :=
  match arena.pointer? v with
  | some p => p.atoms
  | none => (arena.atoms? v).getD []

def leastSafeLevel? (arena : Arena) (sol : Solution) (v : VarId) : Option Category :=
  sol.leastSafe (arena.levels v)

def hasWildLevel (arena : Arena) (sol : Solution) (v : VarId) : Bool :=
  sol.anyWild (arena.levels v)

/-- Whether one category, or none, is safer than another; none is the safest. -/
def isSafer : Option Category → Option Category → Bool
  | none, some _ => true
  | some a, some b => a < b
  | _, none => false

/-- The less safe of a variable and the best one before it, which wins ties. -/
def worse (arena : Arena) (sol : Solution) (best v : VarId) : VarId :=
  if isSafer (arena.leastSafeLevel? sol best) (arena.leastSafeLevel? sol v) then v else best

def leastSafe? (arena : Arena) (sol : Solution) (s : VarSet) : Option VarId :=
  match s.members with
  | [] => none
  | v :: rest => some (rest.foldl (arena.worse sol) v)

end Arena

namespace Session

/-- Bounds every level of a pointer, and says whether some level solved below the bound. -/
def raise (sol : Solution) (v : VarId) (c : Category) : Op Bool := do
  match (← get).arena.pointer? v with
  | some p =>
    p.atoms.forM fun a => discard (addConstraint (.atLeast a c))
    return p.atoms.any fun a => sol.category a < c
  | none => return false

def repairReturn (sol : Solution) (definition declaration : VarId) : Op Bool := do
  let arena := (← get).arena
  if arena.hasWildLevel sol definition then raise sol declaration .leastSafe
  else if arena.hasWildLevel sol declaration then return false
  else
    match arena.leastSafeLevel? sol definition, arena.leastSafeLevel? sol declaration with
    | some c, some c' => if c < c' then raise sol definition c' else return false
    | _, _ => return false

def repairParam (sol : Solution) (definition declaration : VarId) : Op Bool := do
  let arena := (← get).arena
  if arena.hasWildLevel sol definition || arena.hasWildLevel sol declaration then return false
  else
    match arena.leastSafeLevel? sol definition, arena.leastSafeLevel? sol declaration with
    | some c, some c' => if c' < c then raise sol declaration c else return false
    | _, _ => return false

def repairSlot (repair : VarId → VarId → Op Bool) (sol : Solution) (s t : VarSet) :
    Op Bool := do
  let arena := (← get).arena
  match arena.leastSafe? sol s, arena.leastSafe? sol t with
  | some a, some b => repair a b
  | _, _ => return false

def repairParams (sol : Solution) : List (VarSet × VarSet) → Op Bool
  | [] => return false
  | (s, t) :: rest => do
    let first ← repairSlot (repairParam sol) sol s t
    let others ← repairParams sol rest
    return first || others

/-- Reconciles a definition with a declaration, parameters only if both have as many. -/
def repairDeclaration (sol : Solution) (definition declaration : VarId) : Op Bool := do
  let arena := (← get).arena
  match arena.function? definition, arena.function? declaration with
  | some f, some g =>
    let first ← repairSlot (repairReturn sol) sol f.returns g.returns
    if f.params.length = g.params.length then
      let others ← repairParams sol (f.params.zip g.params)
      return first || others
    else return first
  | _, _ => return false

/-- The function variables that declare what is defined under a key: the prototype linked with
it, or else every bodiless global declaration of the name and the signature made on demand. -/
def declarationsPaired (s : Session) (key : FunctionKey) (definition : VarId) : List VarId :=
  match s.pairing.paired? key with
  | some set => set.members
  | none =>
    let name := (s.arena[definition]?.map Variable.name).getD ""
    let globals := ((s.globals.find? name).getD .empty).members.filter fun v =>
      (s.arena.function? v).any fun f => !f.hasBody
    globals ++ ((s.implicits.find? key).getD .empty).members

def repairAll (sol : Solution) (definition : VarId) : List VarId → Op Bool
  | [] => return false
  | d :: rest => do
    let first ← if d = definition then pure false else repairDeclaration sol definition d
    let others ← repairAll sol definition rest
    return first || others

/-- Reconciles the least safe definition under each key with its declarations. -/
def repairKeys (sol : Solution) : List (FunctionKey × VarSet) → Op Bool
  | [] => return false
  | (key, definitions) :: rest => do
    let s ← get
    let first ← match s.arena.leastSafe? sol definitions with
      | some d => repairAll sol d (s.declarationsPaired key d)
      | none => pure false
    let others ← repairKeys sol rest
    return first || others

/-- One round of repair against solved categories. The answer says whether some atom was raised
above its category, in which case solving and repair have to be repeated. -/
def repair (sol : Solution) : Op Bool := do
  repairKeys sol (← get).pairing.definitions

end Session

end CheckedPointers
