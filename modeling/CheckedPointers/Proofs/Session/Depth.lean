import CheckedPointers.Proofs.Session.Completion

/-!
The limit on nested operands. An expression that stays within it denotes what it would denote if
there were none, and no statement of it is given up on that account. Where the limit is exceeded,
the expression that is reported is the first one beyond it.
-/
namespace CheckedPointers

open Op TranslationUnit

/-- The declaration that an attempt is about, apart from the expression that it follows. -/
def FlowStep.decl? : FlowStep → Option DeclId
  | expr _ => none
  | ret func _ => some func
  | init _ var _ => some var

namespace Session

/-! ## The recursion without the limit -/

/-- What an expression denotes, once it is said what its operands denote. -/
def denoteNode (u : TranslationUnit) (rest : ExprId → Viewpoint → Op VarSet) (e : ExprId)
    (view : Viewpoint) : Op VarSet := do
  match ← u.expr e with
  | .paren inner | .implicitCast inner | .bindTemporary inner => rest inner view
  | .declRef d | .member _ d => denoteDecl u d view
  | .binary _ lhs rhs =>
    let left ← rest lhs view
    let right ← rest rhs view
    return left.union right
  | .subscript base _ => dereference (← rest base view)
  | .unary .deref operand =>
    let set ← rest operand view
    if set.members.any (← get).arena.isFunction then Op.unresolved (.functionDereferenced e)
    else dereference set
  | .unary _ operand => rest operand view
  | .call callee _ =>
    match ← u.namedCallee e with
    | some target => denoteCall u e target
    | none =>
      let callees ← rest callee .declaration
      return returnsOf (← get).arena callees
  | .conditional cond whenTrue whenFalse =>
    let first ← rest cond view
    let second ← rest whenTrue view
    let third ← rest whenFalse view
    return (first.union second).union third
  | .stringLiteral value => return .singleton (← literalVariable u e value)
  | .intLiteral _ | .cast .. | .sizeOf _ => return .empty

/-- The variables that an expression denotes, however deep its operands nest. Operands come before
the expressions that use them. -/
def denoteFreely (u : TranslationUnit) (e : ExprId) (view : Viewpoint) : Op VarSet :=
  denoteNode u (fun o view =>
    if _ : o < e then denoteFreely u o view else Op.fault .unknownId) e view
termination_by e

variable {s t : Session} {u : TranslationUnit} {e o : ExprId} {view : Viewpoint} {k n : Nat}

theorem denote_of_isOpen {opened : OpenUnit} (ho : IsOpen u opened s) :
    denote u e view s = denoteWithin u (expressionLimit + 1) e view s := by
  have hopen : (requireOpen u).Ends s ⟨⟩ s :=
    ends_bind.2 ⟨opened, s, ends_current ho, ends_pure.2 ⟨rfl, rfl⟩⟩
  rw [denote, bind_run, hopen]

/-- Only operands are asked for. -/
theorem denoteNode_congr {rest rest' : ExprId → Viewpoint → Op VarSet}
    (h : ∀ x, u.expr e = .ok x → ∀ o ∈ x.operands, ∀ view, rest o view = rest' o view) :
    denoteNode u rest e view = denoteNode u rest' e view := by
  unfold denoteNode
  cases hx : u.expr e with
  | error f => rfl
  | ok x =>
    have hop := h x hx
    rw [lift_ok_bind, lift_ok_bind]
    cases x with
    | paren inner | implicitCast inner | bindTemporary inner =>
      exact hop inner List.mem_cons_self view
    | binary _ lhs rhs =>
      simp only [hop lhs (by simp [Expr.operands]), hop rhs (by simp [Expr.operands])]
    | subscript base _ => simp only [hop base (by simp [Expr.operands])]
    | unary op operand =>
      cases op <;> simp only [hop operand (by simp [Expr.operands])]
    | call callee _ => simp only [hop callee (by simp [Expr.operands])]
    | conditional cond whenTrue whenFalse =>
      simp only [hop cond (by simp [Expr.operands]), hop whenTrue (by simp [Expr.operands]),
        hop whenFalse (by simp [Expr.operands])]
    | declRef _ | member _ _ | stringLiteral _ | intLiteral _ | cast _ _ | sizeOf _ => rfl

/-- The recursion with the limit. -/
theorem denoteWithin_succ (u : TranslationUnit) (n : Nat) (e : ExprId) (view : Viewpoint) :
    denoteWithin u (n + 1) e view = denoteNode u (denoteWithin u n) e view := by
  rw [denoteWithin]
  unfold denoteNode
  apply bind_congr
  intro x
  cases x with
  | unary op _ => cases op <;> rfl
  | _ => rfl

/-- The recursion without the limit. -/
theorem denoteFreely_eq (hu : u.Closed) (e : ExprId) (view : Viewpoint) :
    denoteFreely u e view = denoteNode u (denoteFreely u) e view := by
  rw [denoteFreely]
  apply denoteNode_congr
  intro x hx o ho view
  rw [dif_pos (hu.operands e x hx o ho)]

/-- Expressions that nest less deep than the limit do not meet it. -/
theorem denoteWithin_eq_freely (hu : u.Closed) (h : u.NestsWithin n e) :
    denoteWithin u (n + 1) e view = denoteFreely u e view := by
  induction n generalizing e view with
  | zero =>
    rw [denoteWithin_succ, denoteFreely_eq hu]
    apply denoteNode_congr
    intro x hx o ho view
    obtain ⟨m, hm, -⟩ := h.operand hx ho
    cases hm
  | succ n ih =>
    rw [denoteWithin_succ, denoteFreely_eq hu]
    apply denoteNode_congr
    intro x hx o ho view
    obtain ⟨m, hm, hnests⟩ := h.operand hx ho
    obtain rfl := Nat.succ.inj hm
    exact ih hnests

/-! ## What nests too deeply -/

/-- The failure says of no other expressions than `P` that they nest too deeply. -/
def DeepOnly (P : ExprId → Prop) (f : Failure) : Prop := ∀ o, f = .unresolved (.tooDeep o) → P o

theorem deepOnly_shape {P : ExprId → Prop} (shape : ShapeError) (h : ∀ o, shape ≠ .tooDeep o) :
    DeepOnly P (.unresolved shape) := fun o ho => absurd (Failure.unresolved.inj ho) (h o)

theorem deepOnly_deep {P : ExprId → Prop} (h : P o) : DeepOnly P (.unresolved (.tooDeep o)) := by
  rintro _ ⟨⟩
  exact h

theorem excuses_of_nestsWithin (h : u.NestsWithin expressionLimit e) :
    Excuses u (DeepOnly fun _ => False) e where
  shape := deepOnly_shape
  deep hk hdown := absurd (h _ _ hdown) (Nat.not_le.2 hk)

/-- What is reported as nesting too deeply is the first operand beyond the limit. -/
theorem denote_deepOnly (hu : u.Closed) (hr : Ready u s) (he : e < u.exprs.size) :
    FailsOnly (DeepOnly (u.Descends (expressionLimit + 1) e)) (denote u e view) s := by
  obtain ⟨o, ho⟩ := hr.isOpen
  apply FailsOnly.bind_requireOpen ho
  exact denoteWithin_failsOnly deepOnly_shape hu _ (fun _ => deepOnly_deep) hr he

/-- Nothing of an attempt nests too deeply if nothing of its expression does. -/
theorem run_deepOnly (hu : u.Closed) (hr : Ready u s) {step : FlowStep}
    (he : step.root < u.exprs.size) (hd : ∀ d ∈ step.decl?, d < u.decls.size)
    (h : u.NestsWithin expressionLimit step.root) :
    FailsOnly (DeepOnly fun _ => False) (step.run u) s := by
  have hexcused := excuses_of_nestsWithin h
  cases step with
  | expr e => exact follow_failsOnly hexcused hu hr he
  | ret func value => exact followReturn_failsOnly hexcused hu hr (hd func rfl) he
  | init view var value => exact followInitializer_failsOnly hexcused hu hr (hd var rfl) he

theorem not_deep {α : Type} {x : Op α} (h : FailsOnly (DeepOnly fun _ => False) x s) (o : ExprId)
    (t : Session) : x s ≠ (.error (.unresolved (.tooDeep o)), t) :=
  fun hx => h.of_error _ t hx o rfl

/-- Take a session and an expression of a closed unit that is open in it. If no path of operands down
from the expression is longer than the limit, then it denotes what it denotes without the limit, and
leaves the same session; and neither this nor an attempt to follow it is given up because something
nests too deeply. What is reported as nesting too deeply, of whatever expression, lies one operand
farther below it than the limit. -/
theorem Reachable.unlimited {options : Options} {o : OpenUnit} (h : Reachable options s)
    (hu : u.checkClosed = .ok ()) (ho : IsOpen u o s) (he : e < u.exprs.size) :
    (∀ e view, denoteFreely u e view = denoteNode u (denoteFreely u) e view) ∧
    (∀ n e view, denoteWithin u (n + 1) e view = denoteNode u (denoteWithin u n) e view) ∧
    (u.NestsWithin expressionLimit e →
      (∀ view, denote u e view s = denoteFreely u e view s) ∧
      (∀ view deep t, denote u e view s ≠ (.error (.unresolved (.tooDeep deep)), t)) ∧
      ∀ step : FlowStep, step.root = e → (∀ d ∈ step.decl?, d < u.decls.size) →
        ∀ deep t, step.run u s ≠ (.error (.unresolved (.tooDeep deep)), t)) ∧
    ∀ view deep t, denote u e view s = (.error (.unresolved (.tooDeep deep)), t) →
      u.Descends (expressionLimit + 1) e deep := by
  have hclosed := closed_of_checkClosed hu
  have hr : Ready u s := ⟨h.wellFormed, o, ho⟩
  refine ⟨denoteFreely_eq hclosed, denoteWithin_succ u, fun hnests => ⟨fun view => ?_, ?_, ?_⟩, ?_⟩
  · rw [denote_of_isOpen ho, denoteWithin_eq_freely hclosed hnests]
  · exact fun view => not_deep (denote_failsOnly (excuses_of_nestsWithin hnests) hclosed hr he)
  · rintro step rfl hd
    exact not_deep (run_deepOnly hclosed hr he hd hnests)
  · exact fun view deep t hx => (denote_deepOnly hclosed hr he).of_error _ t hx deep rfl

/-! ## Parentheses around a name -/

def parenthesized (n : Nat) : TranslationUnit :=
  { id := 0
    file := "a.c"
    decls := #[⟨"p", ⟨"a.c", 1, 1⟩, false, .var (.pointer .int) true none none⟩]
    exprs := (.declRef 0 :: (List.range' 0 n).map .paren).toArray
    topLevel := [0] }

theorem parenthesized_expr (h : k < n) : (parenthesized n).expr (k + 1) = .ok (.paren k) := by
  apply expr_eq_ok.2
  simp [parenthesized, h]

/-- A chain of parentheses uses every expression once. -/
theorem checkExprs_parens {used : List ExprId} (hused : ∀ o ∈ used, o < k)
    (hsize : k + n ≤ u.exprs.size) :
    u.checkExprs (k + 1) used ((List.range' k n).map .paren) = .ok () := by
  induction n generalizing k used with
  | zero => rfl
  | succ n ih =>
    have hlt : k < u.exprs.size := by omega
    have href : u.checkReference (.expr k) = .ok () := if_pos hlt
    have hfresh : used.contains k = false := by
      rw [List.contains_eq_mem, decide_eq_false_iff_not]
      exact fun hk => Nat.lt_irrefl k (hused k hk)
    have hops : u.checkOperands (k + 1) used [k] = .ok (k :: used) := by
      rw [checkOperands, href, hfresh, if_neg (Nat.not_succ_le_self k)]
      rfl
    have hused' : ∀ o ∈ k :: used, o < k + 1 :=
      List.forall_mem_cons.2 ⟨Nat.lt_succ_self k, fun o ho => Nat.lt_succ_of_lt (hused o ho)⟩
    rw [List.range'_succ, List.map_cons, checkExprs, Expr.operands, hops]
    exact ih hused' (by omega)

/-- However many parentheses there are, the unit passes the check. -/
theorem parenthesized_checkClosed (n : Nat) : (parenthesized n).checkClosed = .ok () := by
  have hparens : (parenthesized n).checkExprs 1 [] ((List.range' 0 n).map .paren) = .ok () :=
    checkExprs_parens (fun _ ho => nomatch ho) (by simp [parenthesized])
  have hexprs : (parenthesized n).checkExprs 0 [] (parenthesized n).exprs.toList = .ok () := by
    rw [parenthesized, checkExprs]
    exact hparens
  have hdecls : (parenthesized n).decls.toList.forM (fun d =>
      d.references.forM (parenthesized n).checkReference) = .ok () := by
    simp only [parenthesized, List.forM_eq_forM, List.forM_cons, Decl.references, Decl.unblocked,
      Decl.body?, Option.getD_none, Stmt.unblocked]
    rfl
  rw [checkClosed, hdecls]
  exact hexprs

theorem denoteWithin_parenthesized {m l : Nat} (h : k ≤ n) (hl : m + k = l) :
    denoteWithin (parenthesized n) l k view = denoteWithin (parenthesized n) m 0 view := by
  induction k generalizing l with
  | zero => rw [← hl, Nat.add_zero]
  | succ k ih =>
    rw [← hl, ← Nat.add_assoc, denoteWithin_succ, denoteNode, parenthesized_expr h, lift_ok_bind]
    exact ih (Nat.le_of_succ_le h) rfl

/-- Up to 512 parentheses are looked through, and 513 are not, since the name inside is too deep. -/
theorem Reachable.unlimited_parenthesized :
    ∃ s o, Reachable .default s ∧ IsOpen (parenthesized 513) o s ∧
      (parenthesized 513).NestsWithin expressionLimit 512 ∧
      (denoteFreely (parenthesized 513) 512 .body s).1.toOption = some ⟨[0]⟩ ∧
      denote (parenthesized 513) 512 .body s = denoteFreely (parenthesized 513) 512 .body s ∧
      (∀ deep w, follow (parenthesized 513) .body 512 s ≠
        (.error (.unresolved (.tooDeep deep)), w)) ∧
      denote (parenthesized 513) 513 .body s = (.error (.unresolved (.tooDeep 0)), s) ∧
      (parenthesized 513).Descends (expressionLimit + 1) 513 0 := by
  obtain ⟨_, s, hrequests, hlook⟩ := exists_ends
    (x := Session.requests [.enter (parenthesized 513), .giveVariables (parenthesized 513) 0])
    (s := .new .default)
    (g := fun _ s => (s.opened.map fun o => (o.id, o.file),
      (denoteWithin (parenthesized 513) 1 0 .body s).1.toOption))
    (b := (some (0, "a.c"), some ⟨[0]⟩)) (by decide +kernel)
  obtain ⟨hopened, hname⟩ := Prod.mk.inj hlook
  obtain ⟨o, hopened, hid⟩ := Option.map_eq_some_iff.1 hopened
  have hs : Reachable .default s := Reachable.new.requests hrequests
  have ho : IsOpen (parenthesized 513) o s := ⟨hopened, Prod.mk.inj hid⟩
  have hu := parenthesized_checkClosed 513
  have hnests : (parenthesized 513).NestsWithin expressionLimit 512 := by
    intro k d hk
    have hle := (closed_of_checkClosed hu).descends_le hk
    exact Nat.le_of_add_left_le hle
  obtain ⟨-, -, hfits, -⟩ := hs.unlimited (e := 512) hu ho (by simp [parenthesized])
  obtain ⟨hdenote, -, hrun⟩ := hfits hnests
  obtain ⟨-, -, -, hdeep⟩ := hs.unlimited (e := 513) hu ho (by simp [parenthesized])
  have hlooks : ∀ {k}, k ≤ 513 → ∀ m, m + k = expressionLimit + 1 →
      denote (parenthesized 513) k .body s = denoteWithin (parenthesized 513) m 0 .body s := by
    intro k hk m hm
    rw [denote_of_isOpen ho, denoteWithin_parenthesized hk hm]
  have hfails : denote (parenthesized 513) 513 .body s =
      (.error (.unresolved (.tooDeep 0)), s) := hlooks le_rfl 0 rfl
  refine ⟨s, o, hs, ho, hnests, ?_, hdenote .body, ?_, hfails, hdeep .body 0 s hfails⟩
  · rw [← hdenote, hlooks (by omega) 1 rfl]
    exact hname
  · exact hrun (.expr 512) rfl fun _ hd => nomatch hd

end Session

end CheckedPointers
