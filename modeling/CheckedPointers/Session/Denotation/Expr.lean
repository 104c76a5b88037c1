import CheckedPointers.Session.Denotation.Decl

/-!
The variables that an expression denotes. What has to be made on the way (a variable one
dereference down, a string literal, a call without a known target) is made once and remembered.
-/
namespace CheckedPointers

namespace Session

def dereferenceOne (v : VarId) : Op (Option VarId) := do
  match (← get).pointees.find? v with
  | some memo => return memo
  | none =>
    let made ← match ((← get).arena.pointer? v).bind PointerVariable.dereferenced? with
      | some p => some <$> allocate (.pointer p)
      | none => pure none
    modify fun s => { s with pointees := s.pointees.insert v made }
    return made

def dereferenceAll : List VarId → Op VarSet
  | [] => return .empty
  | v :: rest => do
    let below ← dereferenceOne v
    let others ← dereferenceAll rest
    return match below with
      | some d => others.insert d
      | none => others

def dereference (s : VarSet) : Op VarSet := dereferenceAll s.members

/-- The variable of a string literal: one level, a null-terminated array at least. -/
def literalVariable (u : TranslationUnit) (e : ExprId) (value : String) : Op VarId := do
  match (← current u).literals.find? e with
  | some v => return v
  | none =>
    let a ← freshAtom
    discard (addConstraint (.atLeast a .ntArr))
    let v ← allocate (.pointer ⟨[a], "const char", value, none, false, none⟩)
    let o ← current u
    setOpen { o with literals := o.literals.insert e v }
    return v

/-- The signature of a call whose target is unknown. -/
def unknownCallee (u : TranslationUnit) (call : ExprId) : Op VarId := do
  match (← current u).unknownCallees.find? call with
  | some v => return v
  | none =>
    let v ← allocate (.function .unknown)
    let o ← current u
    setOpen { o with unknownCallees := o.unknownCallees.insert call v }
    return v

/-- What a call of a named declaration returns, seen from the declaration. -/
def denoteCall (u : TranslationUnit) (call : ExprId) (target : DeclId) : Op VarSet := do
  let d ← u.decl target
  if !d.isDeclarator then Op.unresolved (.uncallable d.anchor)
  else
    let found ← denoteDecl u target .declaration
    let arena := (← get).arena
    match (found.members.filterMap arena.reachableFunction?).getLast? with
    | some f => return f.returns
    | none => return .singleton (← unknownCallee u call)

def returnsOf (arena : Arena) (callees : VarSet) : VarSet :=
  .ofList <| (callees.members.filterMap arena.reachableFunction?).flatMap (·.returns.members)

def expressionLimit : Nat := 512

/-- The variables that an expression denotes, looking at `n` nested expressions at most. -/
def denoteWithin (u : TranslationUnit) : Nat → ExprId → Viewpoint → Op VarSet
  | 0, e, _ => Op.unresolved (.tooDeep e)
  | n + 1, e, view => do
    match ← u.expr e with
    | .paren inner | .implicitCast inner | .bindTemporary inner => denoteWithin u n inner view
    | .declRef d | .member _ d => denoteDecl u d view
    | .binary _ lhs rhs =>
      let left ← denoteWithin u n lhs view
      let right ← denoteWithin u n rhs view
      return left.union right
    | .subscript base _ => dereference (← denoteWithin u n base view)
    | .unary .deref operand =>
      let set ← denoteWithin u n operand view
      if set.members.any (← get).arena.isFunction then Op.unresolved (.functionDereferenced e)
      else dereference set
    | .unary _ operand => denoteWithin u n operand view
    | .call callee _ =>
      match ← u.namedCallee e with
      | some target => denoteCall u e target
      | none =>
        let callees ← denoteWithin u n callee .declaration
        return returnsOf (← get).arena callees
    | .conditional cond whenTrue whenFalse =>
      let first ← denoteWithin u n cond view
      let second ← denoteWithin u n whenTrue view
      let third ← denoteWithin u n whenFalse view
      return (first.union second).union third
    | .stringLiteral value => return .singleton (← literalVariable u e value)
    | .intLiteral _ | .cast .. | .sizeOf _ => return .empty

def denote (u : TranslationUnit) (e : ExprId) (view : Viewpoint) : Op VarSet := do
  requireOpen u
  denoteWithin u (expressionLimit + 1) e view

end Session

end CheckedPointers
