import CheckedPointers.Proofs.CType.Erasure
import CheckedPointers.Proofs.Session.Matching
import CheckedPointers.Session.Flow

/-!
Units that say the same in other words: with other typedefs, with other wrappers around expressions
or with statements grouped otherwise. Questions asked of such units have answers that belong
together.
-/
namespace CheckedPointers

open Session (expressionLimit)

/-! ## Nodes, statements and declarations -/

def Expr.wrapped? : Expr → Option ExprId
  | .paren inner | .implicitCast inner | .bindTemporary inner => some inner
  | _ => none

/-- The expression is no name, no call, no cast, no number and nothing in parentheses, so nothing
that looks for one of these finds it. -/
def Expr.IsPlain : Expr → Prop
  | .binary .. | .unary .. | .subscript .. | .conditional .. | .stringLiteral _ | .sizeOf _
  | .bindTemporary _ => True
  | _ => False

/-- Nodes of one kind with operands that `r` relates. Where an operand is looked at through its
wrappers (a callee, an index, both sides of an assignment, what is converted) `q` relates it too. -/
inductive Expr.Rewords (r q : ExprId → ExprId → Prop) : Expr → Expr → Prop where
  | declRef (d : DeclId) : Rewords r q (.declRef d) (.declRef d)
  | member {base base' : ExprId} (field : DeclId) (h : r base base') :
    Rewords r q (.member base field) (.member base' field)
  | binary {lhs lhs' rhs rhs' : ExprId} (op : BinaryOp) (hl : r lhs lhs') (hr : r rhs rhs')
    (hq : op = .assign → q lhs lhs' ∧ q rhs rhs') :
    Rewords r q (.binary op lhs rhs) (.binary op lhs' rhs')
  | unary {operand operand' : ExprId} (op : UnaryOp) (h : r operand operand') :
    Rewords r q (.unary op operand) (.unary op operand')
  | subscript {base base' index index' : ExprId} (hb : r base base') (hi : r index index')
    (hq : q index index') : Rewords r q (.subscript base index) (.subscript base' index')
  | call {callee callee' : ExprId} {args args' : List ExprId} (hc : r callee callee')
    (hq : q callee callee') (ha : List.Forall₂ r args args') :
    Rewords r q (.call callee args) (.call callee' args')
  | conditional {cond cond' whenTrue whenTrue' whenFalse whenFalse' : ExprId} (hc : r cond cond')
    (ht : r whenTrue whenTrue') (hf : r whenFalse whenFalse') :
    Rewords r q (.conditional cond whenTrue whenFalse) (.conditional cond' whenTrue' whenFalse')
  | stringLiteral (value : String) : Rewords r q (.stringLiteral value) (.stringLiteral value)
  | intLiteral (value : Int) : Rewords r q (.intLiteral value) (.intLiteral value)
  | paren {inner inner' : ExprId} (h : r inner inner') : Rewords r q (.paren inner) (.paren inner')
  | implicitCast {inner inner' : ExprId} (h : r inner inner') :
    Rewords r q (.implicitCast inner) (.implicitCast inner')
  | bindTemporary {inner inner' : ExprId} (h : r inner inner') :
    Rewords r q (.bindTemporary inner) (.bindTemporary inner')
  | cast {ty ty' : CType} {inner inner' : ExprId} (ht : ty.Rewords ty') (h : r inner inner')
    (hq : q inner inner') : Rewords r q (.cast ty inner) (.cast ty' inner')
  | sizeOf (ty ty' : CType) : Rewords r q (.sizeOf ty) (.sizeOf ty')

/-- A statement other than a block, with expressions that `r` relates, and `q` too if they are
returned. -/
inductive Stmt.Rewords (r q : ExprId → ExprId → Prop) : Stmt → Stmt → Prop where
  | expr {e e' : ExprId} (h : r e e') : Rewords r q (.expr e) (.expr e')
  | ret {value value' : Option ExprId} (h : Option.Rel (fun e e' => r e e' ∧ q e e') value value') :
    Rewords r q (.ret value) (.ret value')
  | decl (d : DeclId) : Rewords r q (.decl d) (.decl d)

def Stmt.RewordsAll (r q : ExprId → ExprId → Prop) (body body' : List Stmt) : Prop :=
  List.Forall₂ (Stmt.Rewords r q) (Stmt.unblocked body) (Stmt.unblocked body')

inductive DeclKind.Rewords (r q : ExprId → ExprId → Prop) : DeclKind → DeclKind → Prop where
  | var {ty ty' : CType} {init init' : Option ExprId} (isGlobal : Bool) (itype : Option String)
    (ht : ty.Rewords ty') (hi : Option.Rel (fun e e' => r e e' ∧ q e e') init init') :
    Rewords r q (.var ty isGlobal itype init) (.var ty' isGlobal itype init')
  | field {ty ty' : CType} (itype : Option String) (ht : ty.Rewords ty') :
    Rewords r q (.field ty itype) (.field ty' itype)
  | function {signature signature' : Signature} {body body' : Option (List Stmt)}
    (params : List DeclId) (isGlobal : Bool) (ht : signature.toType.Rewords signature'.toType)
    (hb : Option.Rel (Stmt.RewordsAll r q) body body') :
    Rewords r q (.function signature params isGlobal body)
      (.function signature' params isGlobal body')
  | param {ty ty' : CType} (owner : Option DeclId) (itype : Option String) (ht : ty.Rewords ty') :
    Rewords r q (.param ty owner itype) (.param ty' owner itype)
  | typedef {ty ty' : CType} (ht : ty.Rewords ty') : Rewords r q (.typedef ty) (.typedef ty')
  | enumConstant (value : Int) : Rewords r q (.enumConstant value) (.enumConstant value)

structure Decl.Rewords (r q : ExprId → ExprId → Prop) (d d' : Decl) : Prop where
  name : d'.name = d.name
  anchor : d'.anchor = d.anchor
  inMacro : d'.inMacro = d.inMacro
  kind : d.kind.Rewords r q d'.kind

section

variable {r q : ExprId → ExprId → Prop}

theorem Expr.eq_of_wrapped? {x : Expr} {inner : ExprId} (h : x.wrapped? = some inner) :
    x = .paren inner ∨ x = .implicitCast inner ∨ x = .bindTemporary inner := by
  cases x <;> simp_all [Expr.wrapped?]

/-- A node is reworded under any relation that holds of its operands. -/
theorem Expr.Rewords.mono {r' : ExprId → ExprId → Prop} {x x' : Expr}
    (hr : ∀ e ∈ x.operands, ∀ e' ∈ x'.operands, r e e' → r' e e') (h : x.Rewords r q x') :
    x.Rewords r' q x' := by
  cases h with
  | @call callee callee' args args' hc hq ha =>
    have hargs : ∀ e ∈ args, ∀ e' ∈ args', r e e' → r' e e' := fun e he e' he' =>
      hr e (List.mem_cons_of_mem callee he) e' (List.mem_cons_of_mem callee' he')
    refine .call (hr _ List.mem_cons_self _ List.mem_cons_self hc) hq ?_
    clear hr
    induction ha with
    | nil => exact .nil
    | cons harg _ ih =>
      refine .cons (hargs _ List.mem_cons_self _ List.mem_cons_self harg) (ih ?_)
      exact fun e he e' he' => hargs e (List.mem_cons_of_mem _ he) e' (List.mem_cons_of_mem _ he')
  | _ =>
    constructor <;> first
      | assumption
      | exact hr _ (by simp [Expr.operands]) _ (by simp [Expr.operands]) ‹_›

theorem Expr.Rewords.operands {x x' : Expr} (h : x.Rewords r q x') :
    List.Forall₂ r x.operands x'.operands := by
  cases h <;> simp_all [Expr.operands]

theorem Expr.Rewords.target? {x x' : Expr} (h : x.Rewords r q x') : x'.target? = x.target? := by
  cases h <;> rfl

theorem Expr.IsPlain.target? {x : Expr} (h : x.IsPlain) : x.target? = none := by
  cases x <;> first | rfl | exact h.elim

theorem Expr.IsPlain.uncast? {x : Expr} (h : x.IsPlain) : x.uncast? = none := by
  cases x <;> first | rfl | exact h.elim

namespace Decl.Rewords

variable {d d' : Decl} (h : d.Rewords r q d')

include h

theorem ty? : Option.Rel CType.Rewords d.ty? d'.ty? := by
  obtain ⟨name, anchor, inMacro, kind⟩ := d
  obtain ⟨name', anchor', inMacro', kind'⟩ := d'
  cases h.kind with
  | enumConstant value => exact .none
  | _ => exact .some ‹_›

theorem isDeclarator : d'.isDeclarator = d.isDeclarator := by
  obtain ⟨name, anchor, inMacro, kind⟩ := d
  obtain ⟨name', anchor', inMacro', kind'⟩ := d'
  cases h.kind <;> rfl

theorem isFunction : d'.isFunction = d.isFunction := by
  obtain ⟨name, anchor, inMacro, kind⟩ := d
  obtain ⟨name', anchor', inMacro', kind'⟩ := d'
  cases h.kind <;> rfl

theorem isParam : d'.isParam = d.isParam := by
  obtain ⟨name, anchor, inMacro, kind⟩ := d
  obtain ⟨name', anchor', inMacro', kind'⟩ := d'
  cases h.kind <;> rfl

theorem itype? : d'.itype? = d.itype? := by
  obtain ⟨name, anchor, inMacro, kind⟩ := d
  obtain ⟨name', anchor', inMacro', kind'⟩ := d'
  cases h.kind <;> rfl

theorem isGlobalFunction : d'.isGlobalFunction = d.isGlobalFunction := by
  obtain ⟨name, anchor, inMacro, kind⟩ := d
  obtain ⟨name', anchor', inMacro', kind'⟩ := d'
  cases h.kind <;> rfl

theorem params : d'.params = d.params := by
  obtain ⟨name, anchor, inMacro, kind⟩ := d
  obtain ⟨name', anchor', inMacro', kind'⟩ := d'
  cases h.kind <;> rfl

theorem owner? : d'.owner? = d.owner? := by
  obtain ⟨name, anchor, inMacro, kind⟩ := d
  obtain ⟨name', anchor', inMacro', kind'⟩ := d'
  cases h.kind <;> rfl

theorem init? : Option.Rel (fun e e' => r e e' ∧ q e e') d.init? d'.init? := by
  obtain ⟨name, anchor, inMacro, kind⟩ := d
  obtain ⟨name', anchor', inMacro', kind'⟩ := d'
  cases h.kind with
  | var _ _ _ hi => exact hi
  | _ => exact .none

theorem body? : Option.Rel (Stmt.RewordsAll r q) d.body? d'.body? := by
  obtain ⟨name, anchor, inMacro, kind⟩ := d
  obtain ⟨name', anchor', inMacro', kind'⟩ := d'
  cases h.kind with
  | function _ _ _ hb => exact hb
  | _ => exact .none

theorem hasBody : d'.hasBody = d.hasBody := by
  have hbody := h.body?
  rw [Decl.hasBody, Decl.hasBody]
  generalize d.body? = b, d'.body? = b' at hbody ⊢
  cases hbody <;> rfl

theorem isRewritable : d'.isRewritable = d.isRewritable := by
  rw [Decl.isRewritable, Decl.isRewritable, h.inMacro]

theorem key : d'.key = d.key := by rw [Decl.key, Decl.key, h.anchor, h.name]

theorem unblocked : List.Forall₂ (Stmt.Rewords r q) d.unblocked d'.unblocked := by
  have hbody := h.body?
  rw [Decl.unblocked, Decl.unblocked]
  generalize d.body? = b, d'.body? = b' at hbody ⊢
  cases hbody with
  | none => simp [Stmt.unblocked]
  | some hb => exact hb

end Decl.Rewords

theorem rel_mono {α β : Type} {q q' : α → β → Prop} (hq : ∀ a b, q a b → q' a b) {x : Option α}
    {y : Option β} (h : Option.Rel q x y) : Option.Rel q' x y := by
  cases h with
  | none => exact .none
  | some h => exact .some (hq _ _ h)

section

variable {r' : ExprId → ExprId → Prop} (hr : ∀ e e', r e e' → r' e e')

include hr

theorem Stmt.Rewords.mono {s s' : Stmt} (h : s.Rewords r q s') : s.Rewords r' q s' := by
  cases h with
  | expr h => exact .expr (hr _ _ h)
  | ret h => exact .ret (rel_mono (fun _ _ h => ⟨hr _ _ h.1, h.2⟩) h)
  | decl d => exact .decl d

theorem Decl.Rewords.mono {d d' : Decl} (h : d.Rewords r q d') : d.Rewords r' q d' := by
  refine ⟨h.name, h.anchor, h.inMacro, ?_⟩
  obtain ⟨name, anchor, inMacro, kind⟩ := d
  obtain ⟨name', anchor', inMacro', kind'⟩ := d'
  cases h.kind with
  | var isGlobal itype ht hi =>
    exact .var isGlobal itype ht (rel_mono (fun _ _ h => ⟨hr _ _ h.1, h.2⟩) hi)
  | field itype ht => exact .field itype ht
  | function params isGlobal ht hb =>
    exact .function params isGlobal ht
      (rel_mono (fun _ _ hbody => List.Forall₂.imp (fun _ _ => Stmt.Rewords.mono hr) hbody) hb)
  | param owner itype ht => exact .param owner itype ht
  | typedef ht => exact .typedef ht
  | enumConstant value => exact .enumConstant value

end

end

/-! ## Units -/

namespace TranslationUnit

variable {u u' : TranslationUnit}

/-- How an expression that may be looked at `n` levels deep is reworded by one that may be looked
at `n'` levels deep: neither may be looked at, the second one is wrapped once more, or both are
nodes of one kind. -/
inductive RewordsStep (u u' : TranslationUnit) (within : Nat → ExprId → Nat → ExprId → Prop)
    (seen key : ExprId → ExprId → Prop) : Nat → ExprId → Nat → ExprId → Prop where
  | spent (e e' : ExprId) : RewordsStep u u' within seen key 0 e 0 e'
  | wrapped {n n' : Nat} {e e' inner : ExprId} {x' : Expr} (hx' : u'.expr e' = .ok x')
    (hinner : x'.wrapped? = some inner) (h : within n e n' inner) :
    RewordsStep u u' within seen key n e (n' + 1) e'
  | node {n n' : Nat} {e e' : ExprId} (hkey : key e e')
    (h : Both (Expr.Rewords (fun o o' => within n o n' o') seen) (u.expr e) (u'.expr e')) :
    RewordsStep u u' within seen key (n + 1) e (n' + 1) e'

def HoldsPlain (u : TranslationUnit) (c : ExprId) : Prop := ∃ x, u.expr c = .ok x ∧ x.IsPlain

theorem HoldsPlain.isAllowedCall {options : Options} {c : ExprId} (h : u.HoldsPlain c) :
    u.isAllowedCall options c = .ok false := by
  obtain ⟨x, hc, hx⟩ := h
  rw [TranslationUnit.isAllowedCall, TranslationUnit.uncast, unwrapWithin, hc]
  cases x <;> first | exact hx.elim | simp [bind, Except.bind, Expr.uncast?, hc, pure, Except.pure]

/-- What stands below wrappers: nodes of one kind, or nodes that nothing looks for. -/
inductive SameCore (u u' : TranslationUnit) (r q : ExprId → ExprId → Prop) (c c' : ExprId) :
    Prop where
  | same {x x' : Expr} (hx : u.expr c = .ok x) (hx' : u'.expr c' = .ok x') (hcc : q c c')
    (h : x.Rewords r q x')
  | plain (h : u.HoldsPlain c) (h' : u'.HoldsPlain c')

theorem SameCore.mono {r r' q : ExprId → ExprId → Prop} (hr : ∀ e e', r e e' → r' e e')
    {c c' : ExprId} (h : SameCore u u' r q c c') : SameCore u u' r' q c c' := by
  cases h with
  | same hx hx' hcc h => exact .same hx hx' hcc (h.mono fun e _ e' _ => hr e e')
  | plain h h' => exact .plain h h'

/-- A unit that says the same as `u` in other words. `Within n e n' e'` tells that the expression
`e` looked at `n` levels deep corresponds to `e'` looked at `n'` levels deep, `Seen` that what
stands below the wrappers of `e` corresponds to what stands below those of `e'`, and `Key` which
literals and calls correspond. -/
structure Rewording (u u' : TranslationUnit) where
  Within : Nat → ExprId → Nat → ExprId → Prop
  Seen : ExprId → ExprId → Prop
  Key : ExprId → ExprId → Prop
  id : u'.id = u.id
  file : u'.file = u.file
  topLevel : u'.topLevel = u.topLevel
  decls : List.Forall₂
    (Decl.Rewords (fun e e' => Within (expressionLimit + 1) e (expressionLimit + 1) e') Seen)
    u.decls.toList u'.decls.toList
  restart : ∀ {n e n' e'}, Within n e n' e' →
    Within (expressionLimit + 1) e (expressionLimit + 1) e'
  keys : ∀ {e e' d d'}, Key e e' → Key d d' → (e = d ↔ e' = d')
  step : ∀ {n e n' e'}, Within n e n' e' → RewordsStep u u' Within Seen Key n e n' e'
  counted : ∀ {n e n' e'}, Within n e n' e' →
    Both (fun _ _ => True) (u.elementCount? e) (u'.elementCount? e')
  unparen : ∀ {e e'}, Seen e e' →
    Both (SameCore u u' (fun e e' => Within (expressionLimit + 1) e (expressionLimit + 1) e') Seen)
      (u.unparen e) (u'.unparen e')
  uncast : ∀ {e e'}, Seen e e' →
    Both (SameCore u u' (fun e e' => Within (expressionLimit + 1) e (expressionLimit + 1) e') Seen)
      (u.uncast e) (u'.uncast e')

namespace Rewording

variable (w : u.Rewording u') {e e' : ExprId}

def Told (e e' : ExprId) : Prop := w.Within (expressionLimit + 1) e (expressionLimit + 1) e'

/-! ### Declarations -/

include w

theorem decl (d : DeclId) : Both (Decl.Rewords w.Told w.Seen) (u.decl d) (u'.decl d) := by
  have hlist : ∀ {l l' : List Decl}, List.Forall₂ (Decl.Rewords w.Told w.Seen) l l' →
      Option.Rel (Decl.Rewords w.Told w.Seen) l[d]? l'[d]? := by
    intro l l' h
    induction h generalizing d with
    | nil => exact .none
    | cons hd _ ih =>
      cases d with
      | zero => exact .some hd
      | succ d => exact ih d
  have h := hlist w.decls
  rw [Array.getElem?_toList, Array.getElem?_toList] at h
  rw [TranslationUnit.decl, TranslationUnit.decl]
  generalize u.decls[d]? = x, u'.decls[d]? = x' at h ⊢
  cases h with
  | none => trivial
  | some h => exact h

/-- The same function is found first, since names are not reworded. -/
theorem findFunction?_eq (name : String) {p : Decl → Bool}
    (hp : ∀ d d' : Decl, d.Rewords w.Told w.Seen d' → p d' = p d) :
    u'.findFunction? name p = u.findFunction? name p := by
  have hlist : ∀ {l l' : List Decl}, List.Forall₂ (Decl.Rewords w.Told w.Seen) l l' →
      (l'.findIdx? fun d => d.isFunction && d.name = name && p d) =
        l.findIdx? fun d => d.isFunction && d.name = name && p d := by
    intro l l' h
    induction h with
    | nil => rfl
    | @cons d d' l l' hd _ ih =>
      rw [List.findIdx?_cons, List.findIdx?_cons, hd.isFunction, hd.name, hp d d' hd, ih]
  have h := hlist w.decls
  rwa [← List.findIdx?_toArray, ← List.findIdx?_toArray] at h

theorem prototypeOf (func : DeclId) : Both Eq (u.prototypeOf func) (u'.prototypeOf func) :=
  (w.decl func).bind fun d d' hd => by
    rw [hd.name, w.findFunction?_eq d.name fun d d' hd => by rw [hd.hasBody]]
    exact Both.pure rfl

theorem definitionFor (func : DeclId) : Both Eq (u.definitionFor func) (u'.definitionFor func) :=
  (w.decl func).bind fun d d' hd => by
    rw [hd.name, w.findFunction?_eq d.name fun d d' hd => hd.hasBody]
    exact Both.pure rfl

theorem keyOf (d : DeclId) : Both Eq (u.keyOf d) (u'.keyOf d) :=
  (w.decl d).bind fun _ _ hd => by
    rw [hd.key]
    exact Both.pure rfl

theorem pairingKey (func : DeclId) : Both Eq (u.pairingKey func) (u'.pairingKey func) :=
  (w.definitionFor func).bind_eq fun _ => w.keyOf _

/-- A parameter has the same owner and position. -/
theorem parameterPosition (param : DeclId) :
    Both Eq (u.parameterPosition param) (u'.parameterPosition param) := by
  refine (w.decl param).bind fun d d' hd => ?_
  rw [hd.owner?]
  cases d.owner? with
  | none => exact Both.pure rfl
  | some owner =>
    have howner := w.decl owner
    rw [TranslationUnit.decl, TranslationUnit.decl] at howner
    dsimp only
    generalize u.decls[owner]? = f, u'.decls[owner]? = f' at howner ⊢
    cases f <;> cases f' <;> simp only [Both] at howner
    · exact Both.pure rfl
    · simp only [howner.params]
      exact Both.pure rfl

theorem declarators : Both Eq u.declarators u'.declarators := by
  rw [TranslationUnit.declarators, TranslationUnit.declarators, w.topLevel]
  refine (Both.mapM fun id _ => (w.decl id).bind fun d d' hd => ?_).bind_eq fun _ => Both.pure rfl
  refine Both.pure (congrArg (id :: ·) ?_)
  have hlocals := hd.unblocked
  generalize d.unblocked = l, d'.unblocked = l' at hlocals
  induction hlocals with
  | nil => rfl
  | cons hst _ ih => cases hst <;> simpa using ih

/-! ### Expressions -/

omit w in
/-- What is asked of a node below wrappers is answered alike if it is answered alike for nodes of
one kind and for nodes that nothing looks for. -/
theorem both_core {α β : Type} {J : α → β → Prop} {r q : ExprId → ExprId → Prop}
    {z z' : Except Fault ExprId} {f : ExprId → Expr → Except Fault α}
    {f' : ExprId → Expr → Except Fault β} (h : Both (SameCore u u' r q) z z')
    (hsame : ∀ c c' x x', u.expr c = .ok x → u'.expr c' = .ok x' → x.Rewords r q x' →
      Both J (f c x) (f' c' x'))
    (hplain : ∀ c c' x x', x.IsPlain → x'.IsPlain → Both J (f c x) (f' c' x')) :
    Both J (z >>= fun c => u.expr c >>= f c) (z' >>= fun c => u'.expr c >>= f' c) := by
  refine h.bind fun c c' hcore => ?_
  cases hcore with
  | same hc hc' hcc hx =>
    rw [hc, hc']
    exact hsame c c' _ _ hc hc' hx
  | plain hc hc' =>
    obtain ⟨x, hc, hx⟩ := hc
    obtain ⟨x', hc', hx'⟩ := hc'
    rw [hc, hc']
    exact hplain c c' x x' hx hx'

theorem namedCallee {c c' callee callee' : ExprId} {args args' : List ExprId}
    (hx : u.expr c = .ok (.call callee args)) (hx' : u'.expr c' = .ok (.call callee' args'))
    (h : w.Seen callee callee') : Both Eq (u.namedCallee c) (u'.namedCallee c') := by
  rw [TranslationUnit.namedCallee, TranslationUnit.namedCallee, hx, hx']
  refine both_core (w.unparen h) (fun _ _ _ _ _ _ hx => ?_) fun _ _ _ _ hx hx' => ?_
  · exact Both.pure hx.target?.symm
  · exact Both.pure (hx.target?.trans hx'.target?.symm)

theorem staticType? (h : w.Seen e e') :
    Both (Option.Rel CType.Rewords) (u.staticType? e) (u'.staticType? e') := by
  refine both_core (w.unparen h) (fun _ _ x x' _ _ hx => ?_) fun _ _ x x' hx hx' => ?_
  · rw [hx.target?]
    cases x.target? with
    | none => exact Both.pure .none
    | some d => exact (w.decl d).bind fun _ _ hd => Both.pure hd.ty?
  · rw [hx.target?, hx'.target?]
    exact Both.pure .none

theorem assignedName? (h : w.Seen e e') :
    Both Eq (Session.assignedName? u e) (Session.assignedName? u' e') := by
  refine both_core (w.unparen h) (fun _ _ _ _ _ _ hx => ?_) fun _ _ x x' hx hx' => ?_
  · cases hx <;> exact Both.pure rfl
  · cases x <;> cases x' <;> first | exact Both.pure rfl | exact hx.elim | exact hx'.elim

theorem isZero (h : w.Seen e e') : Both Eq (u.isZero e) (u'.isZero e') := by
  refine both_core (w.uncast h) (fun _ _ _ _ _ _ hx => ?_) fun _ _ x x' hx hx' => ?_
  · cases hx <;> exact Both.refl _
  · cases x <;> cases x' <;> first | exact Both.pure rfl | exact hx.elim | exact hx'.elim

/-- Calls of one function are allowed or not. -/
theorem calleeAllowed {c c' callee callee' : ExprId} {args args' : List ExprId} (options : Options)
    (hx : u.expr c = .ok (.call callee args)) (hx' : u'.expr c' = .ok (.call callee' args'))
    (h : w.Seen callee callee') :
    Both Eq
      (do
        match ← u.namedCallee c with
        | some callee =>
          let d ← u.decl callee
          return d.isFunction && options.allows d.name
        | none => return false)
      (do
        match ← u'.namedCallee c' with
        | some callee =>
          let d ← u'.decl callee
          return d.isFunction && options.allows d.name
        | none => return false) := by
  refine (w.namedCallee hx hx' h).bind_eq fun callee => ?_
  cases callee with
  | none => exact Both.pure rfl
  | some callee =>
    refine (w.decl callee).bind fun d d' hd => ?_
    rw [hd.isFunction, hd.name]
    exact Both.pure rfl

theorem isAllowedCall (options : Options) (h : w.Seen e e') :
    Both Eq (u.isAllowedCall options e) (u'.isAllowedCall options e') := by
  refine both_core (w.uncast h) (fun c c' x x' hc hc' hx => ?_) fun _ _ x x' hx hx' => ?_
  · cases hx with
    | call _ hcallee _ => exact w.calleeAllowed options hc hc' hcallee
    | _ => exact Both.pure rfl
  · cases x <;> cases x' <;> first | exact Both.pure rfl | exact hx.elim | exact hx'.elim

/-- A call is its own core. -/
theorem isAllowedCall_call {callee callee' : ExprId} {args args' : List ExprId} (options : Options)
    (hx : u.expr e = .ok (.call callee args)) (hx' : u'.expr e' = .ok (.call callee' args'))
    (h : w.Seen callee callee') :
    Both Eq (u.isAllowedCall options e) (u'.isAllowedCall options e') := by
  have hcore {u : TranslationUnit} {e callee : ExprId} {args : List ExprId}
      (hx : u.expr e = .ok (.call callee args)) : u.uncast e = .ok e := by
    simp [TranslationUnit.uncast, unwrapWithin, hx, Expr.uncast?, bind, Except.bind, pure,
      Except.pure]
  rw [TranslationUnit.isAllowedCall, TranslationUnit.isAllowedCall, hcore hx, hcore hx']
  simp only [bind, Except.bind, hx, hx']
  exact w.calleeAllowed options hx hx' h

/-- Whether a value is an allocation is known on both sides, though what is found may differ. -/
theorem allocationSize? (h : w.Seen e e') :
    Both (fun _ _ => True) (u.allocationSize? e) (u'.allocationSize? e') := by
  refine both_core (w.uncast h) (fun c c' x x' hc hc' hx => ?_) fun _ _ x x' hx hx' => ?_
  · cases hx with
    | call _ hcallee hargs =>
      refine (w.namedCallee hc hc' hcallee).bind_eq fun callee => ?_
      cases callee with
      | none => exact Both.pure trivial
      | some callee =>
        refine (w.decl callee).bind fun d d' hd => ?_
        rw [hd.name]
        by_cases hmalloc : d.name = "malloc"
        · rw [hmalloc]
          rcases hargs with _ | ⟨hbytes, _ | _⟩
          · exact Both.pure trivial
          · exact w.counted hbytes
          · exact Both.pure trivial
        · by_cases hcalloc : d.name = "calloc" <;> rcases hargs with _ | ⟨_, _ | ⟨_, _ | _⟩⟩ <;>
            simp_all [Both, pure, Except.pure]
    | _ => exact Both.pure trivial
  · cases x <;> cases x' <;> first | exact Both.pure trivial | exact hx.elim | exact hx'.elim

end Rewording

end TranslationUnit

end CheckedPointers
