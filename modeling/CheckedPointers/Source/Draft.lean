import CheckedPointers.Source.Unit

/-!
Units under construction. Declarations and expressions are numbered as they are added, and the
declarations on one line of one file stand four columns apart.
-/
namespace CheckedPointers

structure Draft where
  unit : TranslationUnit
  /-- The file in which declarations are located. -/
  file : String

/-- One step in building a unit. -/
inductive Draft.Call where
  | var (isGlobal : Bool) (name : String) (ty : CType) (line : Nat)
  | field (name : String) (ty : CType) (line : Nat)
  | param (name : String) (ty : CType) (line : Nat)
  | typedef (name : String) (ty : CType) (line : Nat)
  | enumConstant (name : String) (value : Int) (line : Nat)
  | function (name : String) (ret : CType) (params : List DeclId) (isGlobal : Bool)
      (body : Option (List Stmt)) (line : Nat)
  /-- A declaration `ret name();` that says nothing of the parameters. -/
  | functionWithoutPrototype (name : String) (ret : CType) (line : Nat)
  | moveTo (file : String)
  | moveBack
  | makeVariadic (func : DeclId)
  | markMacro (d : DeclId)
  | giveInit (var : DeclId) (init : ExprId)
  | giveInterface (d : DeclId) (text : String)
  | expr (e : Expr)

inductive Draft.Added where
  | decl (d : DeclId)
  | expr (e : ExprId)
  | nothing

namespace Draft

def new (id : Nat) (file : String) : Draft := ⟨⟨id, file, #[], #[], []⟩, file⟩

def nextAnchor (draft : Draft) (line : Nat) : Anchor :=
  ⟨draft.file, line,
    1 + 4 * draft.unit.decls.countP fun d => d.anchor.file = draft.file && d.anchor.line = line⟩

def pushDecl (draft : Draft) (name : String) (line : Nat) (kind : DeclKind) : Draft :=
  { draft with unit.decls := draft.unit.decls.push ⟨name, draft.nextAnchor line, false, kind⟩ }

def addInner (draft : Draft) (name : String) (line : Nat) (kind : DeclKind) : Draft × Added :=
  (draft.pushDecl name line kind, .decl draft.unit.decls.size)

def addOuter (draft : Draft) (name : String) (line : Nat) (kind : DeclKind) : Draft × Added :=
  let d := draft.unit.decls.size
  let draft := draft.pushDecl name line kind
  ({ draft with unit.topLevel := draft.unit.topLevel ++ [d] }, .decl d)

def modifyDecl (draft : Draft) (d : DeclId) (f : Decl → Decl) : Draft :=
  { draft with unit.decls := draft.unit.decls.modify d f }

def setOwner (func : DeclId) (d : Decl) : Decl :=
  match d.kind with
  | .param ty _ itype => { d with kind := .param ty (some func) itype }
  | _ => d

def setSignature (f : Signature → Signature) (d : Decl) : Decl :=
  match d.kind with
  | .function signature params isGlobal body =>
    { d with kind := .function (f signature) params isGlobal body }
  | _ => d

def setInitializer (init : ExprId) (d : Decl) : Decl :=
  match d.kind with
  | .var ty isGlobal itype _ => { d with kind := .var ty isGlobal itype (some init) }
  | _ => d

def setInterface (text : String) (d : Decl) : Decl :=
  match d.kind with
  | .var ty isGlobal _ init => { d with kind := .var ty isGlobal (some text) init }
  | .field ty _ => { d with kind := .field ty (some text) }
  | .param ty owner _ => { d with kind := .param ty owner (some text) }
  | _ => d

/-- Adds a function, which becomes the owner of its parameters. -/
def addFunction (draft : Draft) (name : String) (ret : CType) (params : List DeclId)
    (isGlobal hasPrototype : Bool) (body : Option (List Stmt)) (line : Nat) :
    Except Fault (Draft × Added) := do
  let decls ← params.mapM draft.unit.decl
  let signature := ⟨ret, decls.filterMap Decl.ty?, false, hasPrototype⟩
  let func := draft.unit.decls.size
  let (draft, added) := draft.addOuter name line (.function signature params isGlobal body)
  return (params.foldl (fun draft p => draft.modifyDecl p (setOwner func)) draft, added)

def change (draft : Draft) (d : DeclId) (f : Decl → Decl) : Except Fault (Draft × Added) := do
  let _ ← draft.unit.decl d
  return (draft.modifyDecl d f, .nothing)

/-- The unit after one step and what the step added. A step that fails adds nothing. -/
def step (draft : Draft) : Call → Except Fault (Draft × Added)
  | .var true name ty line => return draft.addOuter name line (.var ty true none none)
  | .var false name ty line => return draft.addInner name line (.var ty false none none)
  | .field name ty line => return draft.addOuter name line (.field ty none)
  | .param name ty line => return draft.addInner name line (.param ty none none)
  | .typedef name ty line => return draft.addOuter name line (.typedef ty)
  | .enumConstant name value line => return draft.addOuter name line (.enumConstant value)
  | .function name ret params isGlobal body line =>
    draft.addFunction name ret params isGlobal true body line
  | .functionWithoutPrototype name ret line => draft.addFunction name ret [] true false none line
  | .moveTo file => return ({ draft with file }, .nothing)
  | .moveBack => return ({ draft with file := draft.unit.file }, .nothing)
  | .makeVariadic func => draft.change func (setSignature ({ · with variadic := true }))
  | .markMacro d => draft.change d ({ · with inMacro := true })
  | .giveInit var init => draft.change var (setInitializer init)
  | .giveInterface d text => draft.change d (setInterface text)
  | .expr e =>
    return ({ draft with unit.exprs := draft.unit.exprs.push e }, .expr draft.unit.exprs.size)

/-- The unit after some steps, those that fail left out, and what came of each. -/
def run (draft : Draft) : List Call → Draft × List (Except Fault Added)
  | [] => (draft, [])
  | c :: rest =>
    match draft.step c with
    | .ok (next, added) =>
      let (last, results) := next.run rest
      (last, .ok added :: results)
    | .error fault =>
      let (last, results) := draft.run rest
      (last, .error fault :: results)

end Draft

end CheckedPointers
