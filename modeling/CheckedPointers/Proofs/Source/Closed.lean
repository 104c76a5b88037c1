import CheckedPointers.Session.Flow
import CheckedPointers.Source.Closed

/-!
What a closed unit promises. Ids that stand in it name something, and operands precede the
expressions that use them, so every question asked of the unit has an answer.
-/
namespace CheckedPointers

section Questions

variable {α β : Type}

def Gives (x : Except Fault α) (P : α → Prop) : Prop := ∃ a, x = .ok a ∧ P a

variable {x : Except Fault α} {f : α → Except Fault β} {P : α → Prop} {Q : β → Prop}

theorem Gives.pure {a : α} (h : P a) : Gives (Pure.pure a) P := ⟨a, rfl, h⟩

theorem Gives.bind (hx : Gives x P) (h : ∀ a, x = .ok a → P a → Gives (f a) Q) :
    Gives (x >>= f) Q := by
  obtain ⟨a, ha, hp⟩ := hx
  obtain ⟨b, hb, hq⟩ := h a ha hp
  refine ⟨b, ?_, hq⟩
  rw [ha]
  exact hb

theorem gives_mapM {g : α → Except Fault β} {l : List α} (h : ∀ a ∈ l, Gives (g a) Q) :
    Gives (l.mapM g) fun bs => ∀ b ∈ bs, Q b := by
  induction l with
  | nil => exact Gives.pure fun _ hb => nomatch hb
  | cons a rest ih =>
    rw [List.mapM_cons]
    apply (h a List.mem_cons_self).bind
    intro b _ hb
    apply (ih fun c hc => h c (List.mem_cons_of_mem a hc)).bind
    intro bs _ hbs
    exact Gives.pure (List.forall_mem_cons.2 ⟨hb, hbs⟩)

/-- A check of a list passes if it passes for every member. -/
theorem forM_eq_ok {ε : Type} {g : α → Except ε Unit} {l : List α} (h : l.forM g = .ok ()) :
    ∀ a ∈ l, g a = .ok () := by
  induction l with
  | nil => exact fun _ ha => nomatch ha
  | cons a rest ih =>
    change (g a >>= fun _ => rest.forM g) = .ok () at h
    cases ha : g a with
    | error e =>
      rw [ha] at h
      cases h
    | ok _ =>
      rw [ha] at h
      exact List.forall_mem_cons.2 ⟨ha, ih h⟩

end Questions

namespace Expr

variable {x : Expr} {inner : ExprId}

theorem uncast?_of_unparen? (h : x.unparen? = some inner) : x.uncast? = some inner := by
  cases x <;> simp_all [unparen?, uncast?]

theorem mem_operands_of_uncast? (h : x.uncast? = some inner) : inner ∈ x.operands := by
  cases x <;> simp_all [uncast?, operands]

end Expr

namespace TranslationUnit

variable {u : TranslationUnit} {d e : Nat}

theorem decl_eq_ok {decl : Decl} : u.decl d = .ok decl ↔ u.decls[d]? = some decl := by
  unfold TranslationUnit.decl
  cases u.decls[d]? <;> simp

theorem expr_eq_ok {x : Expr} : u.expr e = .ok x ↔ u.exprs[e]? = some x := by
  unfold TranslationUnit.expr
  cases u.exprs[e]? <;> simp

/-- An expression that wraps nothing is the one looked for. -/
theorem unwrapWithin_core {wraps : Expr → Option ExprId} {n : Nat} {x : Expr}
    (hx : u.expr e = .ok x) (h : wraps x = none) : u.unwrapWithin wraps (n + 1) e = .ok e := by
  simp [unwrapWithin, hx, h, bind, Except.bind, pure, Except.pure]

/-- A wrapper is looked through at the cost of one look. -/
theorem unwrapWithin_wrapped {wraps : Expr → Option ExprId} {n : Nat} {x : Expr} {inner : ExprId}
    (hx : u.expr e = .ok x) (h : wraps x = some inner) :
    u.unwrapWithin wraps (n + 1) e = u.unwrapWithin wraps n inner := by
  simp [unwrapWithin, hx, h, bind, Except.bind]

theorem lt_of_expr {x : Expr} (hx : u.expr e = .ok x) : e < u.exprs.size :=
  (Array.getElem?_eq_some_iff.1 (expr_eq_ok.1 hx)).1

theorem decl_gives (h : d < u.decls.size) : Gives (u.decl d) fun _ => True :=
  ⟨u.decls[d], decl_eq_ok.2 (Array.getElem?_eq_getElem h), trivial⟩

theorem expr_gives (h : e < u.exprs.size) : Gives (u.expr e) fun _ => True :=
  ⟨u.exprs[e], expr_eq_ok.2 (Array.getElem?_eq_getElem h), trivial⟩

/-! ## Declarations -/

/-- What is found is a function of that name that passes the test. -/
theorem findFunction?_spec {name : String} {p : Decl → Bool}
    (h : u.findFunction? name p = some d) :
    ∃ decl, u.decl d = .ok decl ∧ decl.isFunction ∧ decl.name = name ∧ p decl := by
  obtain ⟨hlt, hp, -⟩ := Array.findIdx?_eq_some_iff_getElem.1 h
  refine ⟨u.decls[d], decl_eq_ok.2 (Array.getElem?_eq_getElem hlt), ?_⟩
  simpa [and_assoc] using hp

theorem lt_of_decl {decl : Decl} (h : u.decl d = .ok decl) : d < u.decls.size :=
  (Array.getElem?_eq_some_iff.1 (decl_eq_ok.1 h)).1

def IsFunction (u : TranslationUnit) (d : DeclId) : Prop :=
  ∃ decl, u.decl d = .ok decl ∧ decl.isFunction

theorem IsFunction.lt (h : IsFunction u d) : d < u.decls.size := by
  obtain ⟨_, hd, -⟩ := h
  exact lt_of_decl hd

theorem prototypeOf_gives (h : d < u.decls.size) :
    Gives (u.prototypeOf d) fun o => ∀ f, o = some f → IsFunction u f := by
  apply (decl_gives h).bind
  intro decl _ _
  refine Gives.pure fun f hf => ?_
  obtain ⟨found, hfound, hfun, -⟩ := findFunction?_spec hf
  exact ⟨found, hfound, hfun⟩

theorem prototypeOf_spec {p : DeclId} {decl : Decl} (hd : u.decl d = .ok decl)
    (h : u.prototypeOf d = .ok (some p)) :
    ∃ q, u.decl p = .ok q ∧ q.isFunction ∧ q.name = decl.name ∧ ¬ q.hasBody := by
  rw [prototypeOf, hd] at h
  obtain ⟨q, hq, hfun, hname, hbody⟩ := findFunction?_spec (Except.ok.inj h)
  exact ⟨q, hq, hfun, hname, by simpa using hbody⟩

theorem definitionFor_gives (h : d < u.decls.size) :
    Gives (u.definitionFor d) fun o => ∀ f, o = some f → IsFunction u f := by
  apply (decl_gives h).bind
  intro decl _ _
  refine Gives.pure fun f hf => ?_
  obtain ⟨found, hfound, hfun, -⟩ := findFunction?_spec hf
  exact ⟨found, hfound, hfun⟩

/-- The owner of a parameter can be asked for, and is a function of the unit. -/
theorem parameterPosition_gives (h : d < u.decls.size) :
    Gives (u.parameterPosition d) fun o => ∀ owner i, o = some (owner, i) →
      IsFunction u owner := by
  apply (decl_gives h).bind
  intro decl _ _
  split
  · exact Gives.pure fun _ _ h => nomatch h
  · next owner _ =>
    split
    · exact Gives.pure fun _ _ h => nomatch h
    · next f hf =>
      refine Gives.pure fun owner' i hi => ?_
      obtain ⟨j, hj, he⟩ := Option.map_eq_some_iff.1 hi
      obtain ⟨rfl, rfl⟩ := Prod.mk.inj he
      -- only functions list parameters
      refine ⟨f, decl_eq_ok.2 hf, ?_⟩
      unfold Decl.params at hj
      unfold Decl.isFunction
      split at hj
      · rfl
      · cases hj

theorem keyOf_gives (h : d < u.decls.size) : Gives (u.keyOf d) fun _ => True := by
  apply (decl_gives h).bind
  exact fun decl _ _ => Gives.pure trivial

theorem keyOf_eq_ok {decl : Decl} {key : FunctionKey} (hd : u.decl d = .ok decl) :
    u.keyOf d = .ok key ↔ decl.key = key := by
  rw [keyOf, hd]
  exact ⟨Except.ok.inj, fun h => h ▸ rfl⟩

theorem pairingKey_gives (h : d < u.decls.size) : Gives (u.pairingKey d) fun _ => True := by
  apply (definitionFor_gives h).bind
  intro o _ ho
  cases o with
  | none => exact keyOf_gives h
  | some f =>
    exact keyOf_gives (ho f rfl).lt

/-! ## The check -/

def Refers (u : TranslationUnit) : Reference → Prop
  | .decl d => d < u.decls.size
  | .expr e => e < u.exprs.size

/-- What a unit promises once it has passed the check. -/
structure Closed (u : TranslationUnit) : Prop where
  topLevel : ∀ d ∈ u.topLevel, d < u.decls.size
  references : ∀ d decl, u.decl d = .ok decl → ∀ r ∈ decl.references, u.Refers r
  operands : ∀ e x, u.expr e = .ok x → ∀ o ∈ x.operands, o < e
  targets : ∀ e x, u.expr e = .ok x → ∀ d, x.target? = some d → d < u.decls.size

theorem refers_of_checkReference {r : Reference} (h : u.checkReference r = .ok ()) :
    u.Refers r := by
  cases r <;> simp only [checkReference] at h <;> split at h
  · assumption
  · cases h
  · assumption
  · cases h

/-- Checked operands precede their expression, are all different, and were not used before. -/
theorem of_checkOperands {parent : ExprId} {used os used' : List ExprId}
    (h : u.checkOperands parent used os = .ok used') :
    (∀ o ∈ os, o < parent) ∧ os.Nodup ∧ (∀ o ∈ os, o ∉ used) ∧
      ∀ o, o ∈ used' ↔ o ∈ os ∨ o ∈ used := by
  induction os generalizing used with
  | nil =>
    cases h
    simp
  | cons o rest ih =>
    simp only [checkOperands] at h
    cases hr : u.checkReference (.expr o) with
    | error f =>
      rw [hr] at h
      cases h
    | ok _ =>
      rw [hr] at h
      by_cases hle : parent ≤ o
      · simp only [hle, if_true] at h
        cases h
      · by_cases hused : used.contains o
        · simp only [hle, hused, if_true, if_false] at h
          cases h
        · simp only [hle, hused, if_false] at h
          obtain ⟨hlt, hnodup, hfresh, hmem⟩ := ih h
          rw [List.contains_iff_mem] at hused
          refine ⟨List.forall_mem_cons.2 ⟨Nat.lt_of_not_le hle, hlt⟩,
            List.nodup_cons.2 ⟨fun ho => hfresh o ho List.mem_cons_self, hnodup⟩,
            List.forall_mem_cons.2 ⟨hused, fun c hc hc' =>
              hfresh c hc (List.mem_cons_of_mem o hc')⟩, fun c => ?_⟩
          rw [hmem, List.mem_cons, List.mem_cons, or_left_comm, or_assoc]

/-- Expressions are checked one after another. -/
theorem checkExprs_cons {parent : ExprId} {used : List ExprId} {x : Expr} {rest : List Expr}
    (h : u.checkExprs parent used (x :: rest) = .ok ()) :
    (∀ d, x.target? = some d → d < u.decls.size) ∧
      ∃ used', u.checkOperands parent used x.operands = .ok used' ∧
        u.checkExprs (parent + 1) used' rest = .ok () := by
  rw [checkExprs] at h
  cases ht : x.target?.toList.forM fun d => u.checkReference (.decl d) with
  | error f =>
    rw [ht] at h
    cases h
  | ok _ =>
    rw [ht] at h
    cases ho : u.checkOperands parent used x.operands with
    | error f =>
      simp only [ho] at h
      cases h
    | ok used' =>
      simp only [ho] at h
      refine ⟨fun d hd => ?_, used', rfl, h⟩
      have hmem : d ∈ x.target?.toList := by simp [hd]
      exact refers_of_checkReference (forM_eq_ok ht d hmem)

/-- Every expression that was checked refers back, and to declarations that are there. -/
theorem of_checkExprs {parent : ExprId} {used : List ExprId} {xs : List Expr}
    (h : u.checkExprs parent used xs = .ok ()) (i : Nat) (x : Expr) (hx : xs[i]? = some x) :
    (∀ o ∈ x.operands, o < parent + i) ∧ ∀ d, x.target? = some d → d < u.decls.size := by
  induction xs generalizing parent used i with
  | nil => cases hx
  | cons y rest ih =>
    obtain ⟨htargets, used', hoperands, hrest⟩ := checkExprs_cons h
    cases i with
    | zero =>
      obtain rfl := Option.some.inj hx
      exact ⟨(of_checkOperands hoperands).1, htargets⟩
    | succ i =>
      have hi := ih hrest i hx
      rwa [Nat.add_right_comm] at hi

/-- What the check goes through is all there is: file scope, declarations and expressions. -/
theorem of_checkClosed (h : u.checkClosed = .ok ()) :
    (∀ d ∈ u.topLevel, d < u.decls.size) ∧
      (∀ d ∈ u.decls.toList, ∀ r ∈ d.references, u.Refers r) ∧
      u.checkExprs 0 [] u.exprs.toList = .ok () := by
  rw [checkClosed] at h
  cases htop : u.topLevel.forM fun d => u.checkReference (.decl d) with
  | error f =>
    rw [htop] at h
    cases h
  | ok _ =>
    rw [htop] at h
    cases hdecls : u.decls.toList.forM fun d => d.references.forM u.checkReference with
    | error f =>
      simp only [hdecls] at h
      cases h
    | ok _ =>
      simp only [hdecls] at h
      exact ⟨fun d hd => refers_of_checkReference (forM_eq_ok htop d hd), fun d hd r hr =>
        refers_of_checkReference (forM_eq_ok (forM_eq_ok hdecls d hd) r hr), h⟩

/-- What a unit promises is what the check has seen. -/
theorem closed_of_checkClosed (h : u.checkClosed = .ok ()) : u.Closed := by
  obtain ⟨htop, hdecls, hchecked⟩ := of_checkClosed h
  have hexprs : ∀ e x, u.expr e = .ok x → (∀ o ∈ x.operands, o < e) ∧
      ∀ d, x.target? = some d → d < u.decls.size := by
    intro e x hx
    rw [expr_eq_ok, ← Array.getElem?_toList] at hx
    simpa using of_checkExprs hchecked e x hx
  refine ⟨htop, fun d decl hd => hdecls decl ?_, fun e x hx => (hexprs e x hx).1,
    fun e x hx => (hexprs e x hx).2⟩
  exact Array.mem_toList_iff.2 (Array.mem_of_getElem? (decl_eq_ok.1 hd))

namespace Closed

variable (hu : u.Closed)

include hu

theorem operand_lt {x : Expr} (hx : u.expr e = .ok x) {o : ExprId} (ho : o ∈ x.operands) :
    o < u.exprs.size := by
  have he : e < u.exprs.size := (Array.getElem?_eq_some_iff.1 (expr_eq_ok.1 hx)).1
  exact Nat.lt_trans (hu.operands e x hx o ho) he

theorem init_lt {decl : Decl} (hd : u.decl d = .ok decl) {init : ExprId}
    (h : decl.init? = some init) : init < u.exprs.size :=
  hu.references d decl hd (.expr init) (by simp [Decl.references, h])

theorem param_lt {decl : Decl} (hd : u.decl d = .ok decl) {p : DeclId} (h : p ∈ decl.params) :
    p < u.decls.size :=
  hu.references d decl hd (.decl p) (by simp [Decl.references, h])

theorem stmt_refers {decl : Decl} (hd : u.decl d = .ok decl) {st : Stmt} (h : st ∈ decl.unblocked)
    {r : Reference} (hr : st.reference? = some r) : u.Refers r := by
  refine hu.references d decl hd r ?_
  unfold Decl.references
  exact List.mem_append_right _ (List.mem_filterMap.2 ⟨st, h, hr⟩)

/-- The declarators of a closed unit are declarations of it. -/
theorem declarators_gives : Gives u.declarators fun ids => ∀ id ∈ ids, id < u.decls.size := by
  unfold declarators
  apply (gives_mapM (Q := fun group => ∀ id ∈ group, id < u.decls.size) ?_).bind
  · intro groups _ h
    refine Gives.pure fun id hid => ?_
    obtain ⟨group, hgroup, hmem⟩ := List.mem_flatten.1 hid
    exact h group hgroup id hmem
  · intro id hid
    apply (decl_gives (hu.topLevel id hid)).bind
    intro decl hdecl _
    refine Gives.pure (List.forall_mem_cons.2 ⟨hu.topLevel id hid, fun inner hinner => ?_⟩)
    obtain ⟨st, hst, he⟩ := List.mem_filterMap.1 hinner
    cases st with
    | decl inner' =>
      obtain rfl := Option.some.inj he
      exact hu.stmt_refers hdecl hst rfl
    | _ => cases he

/-! ## Expressions -/

/-- Unwrapping goes down, so that it ends within so many looks. -/
theorem unwrapWithin_gives {wraps : Expr → Option ExprId}
    (hwraps : ∀ x inner, wraps x = some inner → inner ∈ x.operands) {n : Nat} (hn : e < n)
    (he : e < u.exprs.size) :
    Gives (u.unwrapWithin wraps n e) fun core => core < u.exprs.size := by
  induction n generalizing e with
  | zero => exact absurd hn (Nat.not_lt_zero e)
  | succ n ih =>
    apply (expr_gives he).bind
    intro x hx _
    split
    · next inner hinner =>
      have hmem := hwraps x inner hinner
      have hlt := hu.operands e x hx inner hmem
      exact ih (Nat.lt_of_lt_of_le hlt (Nat.le_of_lt_succ hn)) (hu.operand_lt hx hmem)
    · exact Gives.pure he

theorem unparen_gives (he : e < u.exprs.size) :
    Gives (u.unparen e) fun core => core < u.exprs.size := by
  exact hu.unwrapWithin_gives (fun _ _ h => Expr.mem_operands_of_uncast?
    (Expr.uncast?_of_unparen? h)) (Nat.lt_succ_of_lt he) he

theorem uncast_gives (he : e < u.exprs.size) :
    Gives (u.uncast e) fun core => core < u.exprs.size := by
  exact hu.unwrapWithin_gives (fun _ _ h => Expr.mem_operands_of_uncast? h)
    (Nat.lt_succ_of_lt he) he

/-- The callee of a call can be looked at through its wrappers. -/
theorem namedCallee_gives (he : e < u.exprs.size) :
    Gives (u.namedCallee e) fun o => ∀ d, o = some d → d < u.decls.size := by
  apply (expr_gives he).bind
  intro x hx _
  split
  · next callee args =>
    have hcallee : callee < u.exprs.size := hu.operand_lt hx List.mem_cons_self
    apply (hu.unparen_gives hcallee).bind
    intro core _ hcore
    apply (expr_gives hcore).bind
    exact fun y hy _ => Gives.pure fun d hd => hu.targets core y hy d hd
  · exact Gives.pure fun _ h => nomatch h

theorem isZero_gives (he : e < u.exprs.size) : Gives (u.isZero e) fun _ => True := by
  apply (hu.uncast_gives he).bind
  intro core _ hcore
  apply (expr_gives hcore).bind
  intro x _ _
  split <;> exact Gives.pure trivial

theorem isSizeOf_gives (he : e < u.exprs.size) : Gives (u.isSizeOf e) fun _ => True := by
  apply (hu.uncast_gives he).bind
  intro core _ hcore
  apply (expr_gives hcore).bind
  intro x _ _
  split <;> exact Gives.pure trivial

theorem staticType?_gives (he : e < u.exprs.size) : Gives (u.staticType? e) fun _ => True := by
  apply (hu.unparen_gives he).bind
  intro core _ hcore
  apply (expr_gives hcore).bind
  intro x hx _
  split
  · next d hd =>
    apply (decl_gives (hu.targets core x hx d hd)).bind
    exact fun decl _ _ => Gives.pure trivial
  · exact Gives.pure trivial

theorem elementCount?_gives (he : e < u.exprs.size) :
    Gives (u.elementCount? e) fun _ => True := by
  apply (hu.uncast_gives he).bind
  intro core _ hcore
  apply (expr_gives hcore).bind
  intro x hx _
  split
  · apply (hu.isSizeOf_gives (hu.operand_lt hx List.mem_cons_self)).bind
    exact fun _ _ _ => Gives.pure trivial
  · exact Gives.pure trivial

/-- The size of an allocation can be looked for in every expression. -/
theorem allocationSize?_gives (he : e < u.exprs.size) :
    Gives (u.allocationSize? e) fun _ => True := by
  apply (hu.uncast_gives he).bind
  intro call _ hcall
  apply (expr_gives hcall).bind
  intro x hx _
  split
  · apply (hu.namedCallee_gives hcall).bind
    intro o _ ho
    split
    · apply (decl_gives (ho _ rfl)).bind
      intro decl _ _
      split
      · exact hu.elementCount?_gives
          (hu.operand_lt hx (List.mem_cons_of_mem _ List.mem_cons_self))
      · exact Gives.pure trivial
      · exact Gives.pure trivial
    · exact Gives.pure trivial
  · exact Gives.pure trivial

theorem isAllowedCall_gives (options : Options) (he : e < u.exprs.size) :
    Gives (u.isAllowedCall options e) fun _ => True := by
  apply (hu.uncast_gives he).bind
  intro call _ hcall
  apply (expr_gives hcall).bind
  intro x _ _
  split
  · apply (hu.namedCallee_gives hcall).bind
    intro o _ ho
    split
    · apply (decl_gives (ho _ rfl)).bind
      exact fun decl _ _ => Gives.pure trivial
    · exact Gives.pure trivial
  · exact Gives.pure trivial

theorem assignedName?_gives (he : e < u.exprs.size) :
    Gives (Session.assignedName? u e) fun _ => True := by
  apply (hu.unparen_gives he).bind
  intro core _ hcore
  apply (expr_gives hcore).bind
  intro x _ _
  split <;> exact Gives.pure trivial

end Closed

end TranslationUnit

end CheckedPointers
