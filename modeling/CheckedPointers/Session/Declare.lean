import CheckedPointers.Session.Bounds

/-!
Giving declarations their variables while their unit is open. An anchor keeps the first function
variable and the first pointer variable stored there.
-/
namespace CheckedPointers

namespace Session

/-- A pointer variable with a new atom for each level of `ty`; `pointee` makes the function that
the levels lead to, if they lead to one. -/
def newPointerOver (ty : CType) (name : String) (itype : Option String)
    (pointee : Op (Option VarId)) : Op VarId := do
  let atoms ← freshAtoms ty.depth
  let function ← pointee
  allocate (.pointer ⟨atoms, ty.bottom.display, name, function, ty.isArray, itype⟩)

mutual

/-- The function variable at the bottom of a type's levels, if there is a function: returns
first, then parameters, then the function itself. -/
def newPointee (name : String) : CType → Op (Option VarId)
  | .pointer inner => newPointee name inner
  | .array elem _ => newPointee name elem
  | .typedef _ underlying => newPointee name underlying
  | .function ret params variadic hasPrototype => do
    let r ← newPointerOver ret name none (newPointee name ret)
    let slots ← newSlots params
    return some (← allocate (.function ⟨name, .singleton r, slots, false, hasPrototype,
      some ⟨ret, params, variadic, hasPrototype⟩⟩))
  | .builtin _ | .record _ => return none

def newSlots : List CType → Op (List VarSet)
  | [] => return []
  | ty :: rest => do
    let p ← newPointerOver ty "" none (newPointee "" ty)
    return .singleton p :: (← newSlots rest)

end

def newPointer (ty : CType) (name : String) (itype : Option String) : Op VarId :=
  newPointerOver ty name itype (newPointee name ty)

/-- A variable for a parameter declaration. One that a macro produced is forced to the least safe
category at once, since it is never declared on its own. -/
def newParameter (u : TranslationUnit) (d : DeclId) : Op VarId := do
  let p ← u.decl d
  let v ← newPointer (p.ty?.getD .int) p.name p.itype?
  if !p.isRewritable then discard (boundBelow v .leastSafe)
  return v

def newParameters (u : TranslationUnit) : List DeclId → Op (List VarSet)
  | [] => return []
  | d :: rest => do
    let v ← newParameter u d
    return .singleton v :: (← newParameters u rest)

/-- A function variable for a function declaration: the return, then each parameter declaration,
then the function itself. -/
def newFunction (u : TranslationUnit) (func : DeclId) : Op VarId := do
  let d ← u.decl func
  match d.kind with
  | .function signature params _ _ =>
    let r ← newPointer signature.ret d.name none
    let slots ← newParameters u params
    allocate (.function ⟨d.name, .singleton r, slots, d.hasBody, signature.hasPrototype,
      some signature⟩)
  | _ => Op.fault (.notAFunction d.name)

def storeSlots (u : TranslationUnit) : List (DeclId × VarSet) → Op PUnit
  | [] => return ()
  | (d, slot) :: rest => do
    store (← u.decl d).anchor slot
    storeSlots u rest

/-- Notes a new function variable as a definition or as a declaration, and stores its
parameters. -/
def recordFunction (u : TranslationUnit) (func : DeclId) (v : VarId) : Op PUnit := do
  let d ← u.decl func
  if d.hasBody then
    updatePairing (·.define d.key v)
    match ← u.prototypeOf func with
    | some declaration =>
      let key ← u.keyOf declaration
      updatePairing (·.pair d.key key)
    | none => pure ()
  else updatePairing (·.declare d.key v)
  let slots := (((← get).arena.function? v).map FunctionVariable.params).getD []
  storeSlots u (d.params.zip slots)

/-- Gives a declarator of function type its variable, unless its anchor has one. -/
def giveFunction (u : TranslationUnit) (func : DeclId) (d : Decl) (ty : CType) : Op Bool := do
  let s ← get
  if ty.isFunction && !(s.storedAt d.anchor).members.any s.arena.isFunction then
    let v ← newFunction u func
    store d.anchor (.singleton v)
    recordFunction u func v
    return true
  else return false

def givePointer (d : Decl) (ty : CType) : Op Bool := do
  let s ← get
  if (ty.isPointer || ty.isArray) && !(s.storedAt d.anchor).members.any s.arena.isPointer then
    let v ← newPointer ty d.name d.itype?
    store d.anchor (.singleton v)
    return true
  else return false

/-- Gives a declarator its variables and says whether any was made. Whatever stands at the anchor
of a declaration that a macro produced is forced to the least safe category. -/
def giveVariables (u : TranslationUnit) (id : DeclId) : Op Bool := do
  requireOpen u
  let d ← u.decl id
  match d.isDeclarator, d.ty? with
  | true, some ty =>
    let madeFunction ← giveFunction u id d ty
    let madePointer ← givePointer d ty
    if !d.isRewritable then
      match (← get).index.find? d.anchor with
      | some set => discard (boundSet set .leastSafe)
      | none => pure ()
    return madeFunction || madePointer
  | _, _ => return false

/-- Notes a global function declaration for linking: a body once seen stays seen, and the function
variables at the anchor become variants of the name. -/
def noteFunction (u : TranslationUnit) (func : DeclId) : Op PUnit := do
  requireOpen u
  let d ← u.decl func
  if d.isGlobalFunction then
    modify fun s =>
      let seen := (s.externs.find? d.name).getD false
      { s with externs := s.externs.insert d.name (seen || d.hasBody) }
    let s ← get
    let variants := (s.storedAt d.anchor).members.filter s.arena.isFunction
    if !variants.isEmpty then
      let known := (s.globals.find? d.name).getD .empty
      modify fun s => { s with globals := s.globals.insert d.name (known.insertAll variants) }

def indexAll (u : TranslationUnit) : List DeclId → Op (List DeclId)
  | [] => return []
  | id :: rest => do
    let made ← giveVariables u id
    if (← u.decl id).isFunction then noteFunction u id
    let others ← indexAll u rest
    return if made then id :: others else others

def indexUnit (u : TranslationUnit) : Op (List DeclId) := do
  enter u
  let made ← indexAll u (← u.declarators)
  exit
  return made

end Session

end CheckedPointers
