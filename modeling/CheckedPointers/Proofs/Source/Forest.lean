import CheckedPointers.Proofs.Source.Closed

/-!
The check of a unit is exact. It passes if and only if the ids in the unit name something and its
expressions form a forest, and a defect that it reports is one that the unit has.
-/
namespace CheckedPointers

namespace Stmt

inductive Within (st : Stmt) : List Stmt → Prop where
  | here {sts : List Stmt} (h : st ∈ sts) : Within st sts
  | inBlock {inner sts : List Stmt} (hblock : block inner ∈ sts) (h : Within st inner) :
    Within st sts

variable {st : Stmt} {sts ts : List Stmt}

theorem Within.mono (h : st.Within sts) (hsub : sts ⊆ ts) : st.Within ts := by
  cases h with
  | here h => exact .here (hsub h)
  | inBlock hblock h => exact .inBlock (hsub hblock) h

theorem within_append : st.Within (sts ++ ts) ↔ st.Within sts ∨ st.Within ts := by
  constructor
  · intro h
    cases h with
    | here h => exact (List.mem_append.1 h).imp .here .here
    | inBlock hblock h => exact (List.mem_append.1 hblock).imp (.inBlock · h) (.inBlock · h)
  · exact fun h => h.elim (·.mono (List.subset_append_left _ _))
      (·.mono (List.subset_append_right _ _))

theorem within_cons {s : Stmt} : st.Within (s :: sts) ↔ st.Within [s] ∨ st.Within sts :=
  (within_append : st.Within ([s] ++ sts) ↔ _)

/-- In a block stands the block itself, or what stands in its list. -/
theorem within_block : st.Within [block sts] ↔ st = block sts ∨ st.Within sts := by
  constructor
  · intro h
    cases h with
    | here h => exact .inl (List.mem_singleton.1 h)
    | inBlock hblock h =>
      obtain rfl := block.inj (List.mem_singleton.1 hblock)
      exact .inr h
  · rintro (rfl | h)
    · exact .here (List.mem_singleton_self _)
    · exact .inBlock (List.mem_singleton_self _) h

theorem within_single {s : Stmt} (hs : ∀ inner, s ≠ block inner) :
    st.Within [s] ↔ st = s := by
  constructor
  · intro h
    cases h with
    | here h => exact List.mem_singleton.1 h
    | @inBlock inner _ hblock h => exact absurd (List.mem_singleton.1 hblock).symm (hs inner)
  · rintro rfl
    exact .here (List.mem_singleton_self _)

/-- Opening the blocks loses no statement and makes none up. -/
theorem mem_unblocked (hst : ∀ inner, st ≠ block inner) :
    st ∈ unblocked sts ↔ st.Within sts := by
  induction sts using unblocked.induct with
  | case1 =>
    rw [unblocked]
    refine ⟨fun h => (nomatch h), fun h => ?_⟩
    cases h with
    | here h => exact h
    | inBlock hblock => cases hblock
  | case2 inner rest ih =>
    rw [unblocked, ih, within_append, within_cons, within_block, or_iff_right (hst inner)]
  | case3 s rest hs ih =>
    rw [unblocked, List.mem_cons, ih, within_cons, within_single hs]
    exact hs

end Stmt

namespace TranslationUnit

/-- Something in the unit refers to a declaration or to an expression: one case for each kind of
place that holds an id. -/
inductive Mentions (u : TranslationUnit) : Reference → Prop where
  | topLevel {d : DeclId} (h : d ∈ u.topLevel) : Mentions u (.decl d)
  | initializer {decl : Decl} {e : ExprId} (hd : decl ∈ u.decls) (h : decl.init? = some e) :
    Mentions u (.expr e)
  | owner {decl : Decl} {d : DeclId} (hd : decl ∈ u.decls) (h : decl.owner? = some d) :
    Mentions u (.decl d)
  | param {decl : Decl} {d : DeclId} (hd : decl ∈ u.decls) (h : d ∈ decl.params) :
    Mentions u (.decl d)
  | statement {decl : Decl} {body : List Stmt} {e : ExprId} (hd : decl ∈ u.decls)
    (hbody : decl.body? = some body) (h : Stmt.Within (.expr e) body) : Mentions u (.expr e)
  | returned {decl : Decl} {body : List Stmt} {e : ExprId} (hd : decl ∈ u.decls)
    (hbody : decl.body? = some body) (h : Stmt.Within (.ret (some e)) body) : Mentions u (.expr e)
  | inner {decl : Decl} {body : List Stmt} {d : DeclId} (hd : decl ∈ u.decls)
    (hbody : decl.body? = some body) (h : Stmt.Within (.decl d) body) : Mentions u (.decl d)
  | target {x : Expr} {d : DeclId} (hx : x ∈ u.exprs) (h : x.target? = some d) :
    Mentions u (.decl d)
  | operand {x : Expr} {o : ExprId} (hx : x ∈ u.exprs) (h : o ∈ x.operands) :
    Mentions u (.expr o)

/-- Operand `i` of expression `e` is `o`. -/
def Uses (u : TranslationUnit) (e : ExprId) (i : Nat) (o : ExprId) : Prop :=
  ∃ x, u.exprs[e]? = some x ∧ x.operands[i]? = some o

/-- Every id names something, operands precede the expressions that use them, and no expression
is an operand twice. -/
structure IsForest (u : TranslationUnit) : Prop where
  refers : ∀ r, u.Mentions r → u.Refers r
  precede : ∀ e i o, u.Uses e i o → o < e
  once : ∀ e i e' j o, u.Uses e i o → u.Uses e' j o → e = e' ∧ i = j

def Has (u : TranslationUnit) : Defect → Prop
  | .danglingDecl d => u.Mentions (.decl d) ∧ u.decls.size ≤ d
  | .danglingExpr e => u.Mentions (.expr e) ∧ u.exprs.size ≤ e
  | .cyclicExpr e => ∃ i o, u.Uses e i o ∧ e ≤ o
  | .sharedExpr o => ∃ e i e' j : Nat, u.Uses e i o ∧ u.Uses e' j o ∧ ¬(e = e' ∧ i = j)

variable {u : TranslationUnit} {e i : Nat} {x : Expr} {d : Decl} {r : Reference}

/-- A unit with a defect is no forest. -/
theorem IsForest.not_has (hu : u.IsForest) (defect : Defect) : ¬u.Has defect := by
  intro h
  cases defect with
  | danglingDecl d => exact absurd (hu.refers _ h.1) (Nat.not_lt.2 h.2)
  | danglingExpr e => exact absurd (hu.refers _ h.1) (Nat.not_lt.2 h.2)
  | cyclicExpr e =>
    obtain ⟨i, o, huse, hle⟩ := h
    exact absurd (hu.precede e i o huse) (Nat.not_lt.2 hle)
  | sharedExpr o =>
    obtain ⟨e, i, e', j, huse, huse', hne⟩ := h
    exact hne (hu.once e i e' j o huse huse')

/-! ## References -/

/-- The references of a declaration that are checked are the ones that it holds. -/
theorem Mentions.of_references (hd : d ∈ u.decls) (h : r ∈ d.references) : u.Mentions r := by
  simp only [Decl.references, List.mem_append, List.mem_map, Option.mem_toList,
    List.mem_filterMap] at h
  rcases h with ((⟨e, he, rfl⟩ | ⟨o, ho, rfl⟩) | ⟨p, hp, rfl⟩) | ⟨st, hst, hr⟩
  · exact .initializer hd he
  · exact .owner hd ho
  · exact .param hd hp
  rw [Decl.unblocked] at hst
  cases hbody : d.body? with
  | none => simp [hbody, Stmt.unblocked] at hst
  | some body =>
    rw [hbody, Option.getD_some] at hst
    cases st with
    | expr e =>
      obtain rfl := Option.some.inj hr
      exact .statement hd hbody ((Stmt.mem_unblocked (by simp)).1 hst)
    | ret value =>
      obtain ⟨e, rfl, rfl⟩ := Option.map_eq_some_iff.1 hr
      exact .returned hd hbody ((Stmt.mem_unblocked (by simp)).1 hst)
    | decl inner =>
      obtain rfl := Option.some.inj hr
      exact .inner hd hbody ((Stmt.mem_unblocked (by simp)).1 hst)
    | block _ => cases hr

/-- What the checks of all declarations have found. -/
theorem refers_of_mentions (htop : ∀ d ∈ u.topLevel, u.Refers (.decl d))
    (hdecls : ∀ d ∈ u.decls, ∀ r ∈ d.references, u.Refers r)
    (htargets : ∀ x ∈ u.exprs, ∀ d, x.target? = some d → u.Refers (.decl d))
    (hoperands : ∀ x ∈ u.exprs, ∀ o ∈ x.operands, u.Refers (.expr o)) (h : u.Mentions r) :
    u.Refers r := by
  have hstatement : ∀ d ∈ u.decls, ∀ body, d.body? = some body → ∀ st r,
      st.reference? = some r → Stmt.Within st body → u.Refers r := by
    intro d hd body hbody st r hr hst
    have hplain : ∀ inner, st ≠ .block inner := by
      rintro inner rfl
      cases hr
    have hmem : st ∈ d.unblocked := by
      rw [Decl.unblocked, hbody]
      exact (Stmt.mem_unblocked hplain).2 hst
    refine hdecls d hd r (List.mem_append_right _ ?_)
    exact List.mem_filterMap.2 ⟨st, hmem, hr⟩
  cases h with
  | topLevel h => exact htop _ h
  | initializer hd h => exact hdecls _ hd _ (by simp [Decl.references, h])
  | owner hd h => exact hdecls _ hd _ (by simp [Decl.references, h])
  | param hd h => exact hdecls _ hd _ (by simp [Decl.references, h])
  | statement hd hbody h => exact hstatement _ hd _ hbody _ _ rfl h
  | returned hd hbody h => exact hstatement _ hd _ hbody _ _ rfl h
  | inner hd hbody h => exact hstatement _ hd _ hbody _ _ rfl h
  | target hx h => exact htargets _ hx _ h
  | operand hx h => exact hoperands _ hx _ h

/-! ## Checks -/

/-- A check either finds what it is meant to find, or reports a defect that the unit has. -/
def Judges {α : Type} (u : TranslationUnit) (x : Except Defect α) (P : α → Prop) : Prop :=
  (∀ a, x = .ok a → P a) ∧ ∀ defect, x = .error defect → u.Has defect

section Judges

variable {α β : Type} {c : Except Defect α} {f : α → Except Defect β} {P : α → Prop}
  {Q : β → Prop}

theorem Judges.ok {a : α} (h : P a) : u.Judges (.ok a) P :=
  ⟨fun _ ha => Except.ok.inj ha ▸ h, fun _ h => nomatch h⟩

theorem Judges.error {defect : Defect} (h : u.Has defect) : u.Judges (.error defect) P :=
  ⟨fun _ h => (nomatch h), fun _ he => Except.error.inj he ▸ h⟩

theorem Judges.bind (hc : u.Judges c P) (h : ∀ a, P a → u.Judges (f a) Q) :
    u.Judges (c >>= f) Q := by
  cases c with
  | ok a => exact h a (hc.1 a rfl)
  | error defect => exact .error (hc.2 defect rfl)

theorem Judges.forM {g : α → Except Defect Unit} {l : List α} {R : α → Prop}
    (h : ∀ a ∈ l, u.Judges (g a) fun _ => R a) : u.Judges (l.forM g) fun _ => ∀ a ∈ l, R a := by
  induction l with
  | nil => exact .ok fun _ ha => nomatch ha
  | cons a rest ih =>
    change u.Judges (g a >>= fun _ => rest.forM g) _
    refine (h a List.mem_cons_self).bind fun _ ha => ?_
    obtain ⟨hok, herror⟩ := ih fun b hb => h b (List.mem_cons_of_mem a hb)
    exact ⟨fun b hb => List.forall_mem_cons.2 ⟨ha, hok b hb⟩, herror⟩

end Judges

theorem judges_checkReference (h : u.Mentions r) :
    u.Judges (u.checkReference r) fun _ => u.Refers r := by
  cases r <;> rw [checkReference] <;> split
  · exact .ok ‹_›
  · exact .error ⟨h, Nat.le_of_not_lt ‹_›⟩
  · exact .ok ‹_›
  · exact .error ⟨h, Nat.le_of_not_lt ‹_›⟩

/-! ## Operands -/

/-- Before operand `i` of expression `e` is checked, `used` are the operands that were checked, and
among these nothing was found wrong. -/
structure Passed (u : TranslationUnit) (e i : Nat) (used : List ExprId) : Prop where
  used : ∀ o, o ∈ used ↔ ∃ e' j : Nat, u.Uses e' j o ∧ (e' < e ∨ e' = e ∧ j < i)
  precede : ∀ e' j o : Nat, u.Uses e' j o → (e' < e ∨ e' = e ∧ j < i) → o < e'
  once : ∀ e₁ j₁ e₂ j₂ o : Nat, u.Uses e₁ j₁ o → u.Uses e₂ j₂ o →
    (e₁ < e ∨ e₁ = e ∧ j₁ < i) → (e₂ < e ∨ e₂ = e ∧ j₂ < i) → e₁ = e₂ ∧ j₁ = j₂

theorem Uses.unique {o o' : ExprId} (h : u.Uses e i o) (h' : u.Uses e i o') : o = o' := by
  obtain ⟨x, hx, ho⟩ := h
  obtain ⟨x', hx', ho'⟩ := h'
  obtain rfl := Option.some.inj (hx.symm.trans hx')
  exact Option.some.inj (ho.symm.trans ho')

theorem passed_zero : u.Passed 0 0 [] where
  used o := by simp
  precede _ _ _ _ h := by omega
  once _ _ _ _ _ _ _ h _ := by omega

/-- One operand more: it has to precede its expression and not to be used before. -/
theorem Passed.operand {used : List ExprId} {o : ExprId} (h : u.Passed e i used)
    (huse : u.Uses e i o) (hlt : o < e) (hfresh : o ∉ used) : u.Passed e (i + 1) (o :: used) := by
  have hearlier : ∀ {e' j}, (e' < e ∨ e' = e ∧ j < i + 1) →
      (e' < e ∨ e' = e ∧ j < i) ∨ e' = e ∧ j = i := by
    intro e' j h
    omega
  -- a use of this operand is not among the earlier ones
  have hnew : ∀ e' j, u.Uses e' j o → ¬(e' < e ∨ e' = e ∧ j < i) :=
    fun e' j huse' hbefore => hfresh ((h.used o).2 ⟨e', j, huse', hbefore⟩)
  constructor
  · intro c
    rw [List.mem_cons, h.used]
    constructor
    · rintro (rfl | ⟨e', j, huse', hbefore⟩)
      · exact ⟨e, i, huse, .inr ⟨rfl, Nat.lt_succ_self i⟩⟩
      · exact ⟨e', j, huse', hbefore.imp_right fun hj => ⟨hj.1, Nat.lt_succ_of_lt hj.2⟩⟩
    · rintro ⟨e', j, huse', hbefore⟩
      rcases hearlier hbefore with hbefore | ⟨rfl, rfl⟩
      · exact .inr ⟨e', j, huse', hbefore⟩
      · exact .inl (huse'.unique huse)
  · intro e' j c huse' hbefore
    rcases hearlier hbefore with hbefore | ⟨rfl, rfl⟩
    · exact h.precede e' j c huse' hbefore
    · rwa [huse'.unique huse]
  · intro e₁ j₁ e₂ j₂ c huse₁ huse₂ hbefore₁ hbefore₂
    rcases hearlier hbefore₁ with hbefore₁ | ⟨rfl, rfl⟩
    · rcases hearlier hbefore₂ with hbefore₂ | ⟨rfl, rfl⟩
      · exact h.once e₁ j₁ e₂ j₂ c huse₁ huse₂ hbefore₁ hbefore₂
      · obtain rfl := huse₂.unique huse
        exact absurd hbefore₁ (hnew _ _ huse₁)
    · obtain rfl := huse₁.unique huse
      rcases hearlier hbefore₂ with hbefore₂ | ⟨rfl, rfl⟩
      · exact absurd hbefore₂ (hnew _ _ huse₂)
      · exact ⟨rfl, rfl⟩

/-- After the last operand comes the first one of the next expression. -/
theorem Passed.next {used : List ExprId} (h : u.Passed e i used)
    (hlast : ∀ j o, u.Uses e j o → j < i) : u.Passed (e + 1) 0 used := by
  have hbefore : ∀ {e' j o}, u.Uses e' j o → (e' < e + 1 ∨ e' = e + 1 ∧ j < 0) →
      e' < e ∨ e' = e ∧ j < i := by
    intro e' j o huse h
    rcases Nat.lt_succ_iff_lt_or_eq.1 (h.resolve_right fun hj => Nat.not_lt_zero j hj.2)
      with h | rfl
    · exact .inl h
    · exact .inr ⟨rfl, hlast j o huse⟩
  constructor
  · intro o
    rw [h.used]
    constructor
    · rintro ⟨e', j, huse, hlt⟩
      exact ⟨e', j, huse, by omega⟩
    · rintro ⟨e', j, huse, hlt⟩
      exact ⟨e', j, huse, hbefore huse hlt⟩
  · exact fun e' j o huse hlt => h.precede e' j o huse (hbefore huse hlt)
  · exact fun e₁ j₁ e₂ j₂ o huse₁ huse₂ hlt₁ hlt₂ =>
      h.once e₁ j₁ e₂ j₂ o huse₁ huse₂ (hbefore huse₁ hlt₁) (hbefore huse₂ hlt₂)

/-- Operands are checked from left to right, against all that were used before. -/
theorem judges_checkOperands (hx : u.exprs[e]? = some x) {done os used : List ExprId}
    (hos : x.operands = done ++ os) (h : u.Passed e done.length used) :
    u.Judges (u.checkOperands e used os) fun used' =>
      u.Passed e x.operands.length used' ∧ ∀ o ∈ os, u.Refers (.expr o) := by
  induction os generalizing done used with
  | nil =>
    rw [List.append_nil] at hos
    exact .ok ⟨hos ▸ h, fun _ ho => nomatch ho⟩
  | cons o rest ih =>
    have huse : u.Uses e done.length o := ⟨x, hx, by simp [hos]⟩
    have hmem : o ∈ x.operands := by simp [hos]
    rw [checkOperands]
    refine (judges_checkReference (.operand (Array.mem_of_getElem? hx) hmem)).bind fun _ ho => ?_
    by_cases hle : e ≤ o
    · rw [if_pos hle]
      have hhas : u.Has (.cyclicExpr e) := ⟨_, o, huse, hle⟩
      exact .error hhas
    rw [if_neg hle]
    by_cases hused : used.contains o
    · obtain ⟨e', j, huse', hbefore⟩ := (h.used o).1 (List.contains_iff_mem.1 hused)
      have hhas : u.Has (.sharedExpr o) := ⟨e', j, e, _, huse', huse, by omega⟩
      rw [if_pos hused]
      exact .error hhas
    · have hpassed := h.operand huse (Nat.lt_of_not_le hle) (hused ∘ List.contains_iff_mem.2)
      rw [if_neg hused]
      have hrest : x.operands = (done ++ [o]) ++ rest := by simp [hos]
      obtain ⟨hok, herror⟩ := ih hrest (by simpa using hpassed)
      exact ⟨fun used' h => ⟨(hok used' h).1, List.forall_mem_cons.2 ⟨ho, (hok used' h).2⟩⟩,
        herror⟩

/-- Expressions are checked in order, and `used` goes from one to the next. -/
theorem judges_checkExprs {done xs : List Expr} {used : List ExprId}
    (hxs : u.exprs.toList = done ++ xs) (h : u.Passed done.length 0 used) :
    u.Judges (u.checkExprs done.length used xs) fun _ =>
      (∃ used', u.Passed u.exprs.size 0 used') ∧ ∀ x ∈ xs,
        (∀ d, x.target? = some d → u.Refers (.decl d)) ∧ ∀ o ∈ x.operands, u.Refers (.expr o) := by
  induction xs generalizing done used with
  | nil =>
    have hsize : u.exprs.size = done.length := by simp [← Array.length_toList, hxs]
    exact .ok ⟨⟨used, hsize ▸ h⟩, fun _ hx => nomatch hx⟩
  | cons x rest ih =>
    have hx : u.exprs[done.length]? = some x := by simp [← Array.getElem?_toList, hxs]
    have hmem : x ∈ u.exprs := Array.mem_of_getElem? hx
    have htarget : u.Judges (x.target?.toList.forM fun d => u.checkReference (.decl d)) fun _ =>
        ∀ d ∈ x.target?.toList, u.Refers (.decl d) :=
      .forM fun d hd => judges_checkReference (.target hmem (Option.mem_toList.1 hd))
    rw [checkExprs]
    refine htarget.bind fun _ htarget => ?_
    refine (judges_checkOperands hx (List.nil_append _).symm h).bind fun used' hused' => ?_
    obtain ⟨hpassed, hoperands⟩ := hused'
    have hlast : ∀ j o, u.Uses done.length j o → j < x.operands.length := by
      rintro j o ⟨x', hx', ho⟩
      obtain rfl := Option.some.inj (hx.symm.trans hx')
      exact (List.getElem?_eq_some_iff.1 ho).1
    have hrest : u.exprs.toList = (done ++ [x]) ++ rest := by simp [hxs]
    obtain ⟨hok, herror⟩ := ih hrest (by simpa using hpassed.next hlast)
    rw [List.length_append, List.length_singleton] at hok herror
    refine ⟨fun a ha => ⟨(hok a ha).1, List.forall_mem_cons.2 ⟨⟨fun d hd => ?_, hoperands⟩,
      (hok a ha).2⟩⟩, herror⟩
    exact htarget d (Option.mem_toList.2 hd)

/-- A unit that passes the check is a forest, and otherwise the reported defect is real. -/
theorem judges_checkClosed (u : TranslationUnit) :
    u.Judges u.checkClosed fun _ => u.IsForest := by
  have htop : u.Judges (u.topLevel.forM fun d => u.checkReference (.decl d)) fun _ =>
      ∀ d ∈ u.topLevel, u.Refers (.decl d) :=
    .forM fun d hd => judges_checkReference (.topLevel hd)
  have hdecls : u.Judges (u.decls.toList.forM fun d => d.references.forM u.checkReference)
      fun _ => ∀ d ∈ u.decls.toList, ∀ r ∈ d.references, u.Refers r :=
    .forM fun d hd => .forM fun r hr =>
      judges_checkReference (.of_references (Array.mem_toList_iff.1 hd) hr)
  have hall : u.exprs.toList = [] ++ u.exprs.toList := rfl
  have hexprs := judges_checkExprs hall passed_zero
  rw [checkClosed]
  refine htop.bind fun _ htop => hdecls.bind fun _ hdecls => ?_
  refine ⟨fun a ha => ?_, hexprs.2⟩
  obtain ⟨⟨used, hpassed⟩, hexprs⟩ := hexprs.1 a ha
  have hlt : ∀ {e i o}, u.Uses e i o → e < u.exprs.size := by
    rintro e i o ⟨x, hx, -⟩
    exact (Array.getElem?_eq_some_iff.1 hx).1
  constructor
  · intro r hr
    refine refers_of_mentions htop (fun d hd => hdecls d (Array.mem_toList_iff.2 hd)) ?_ ?_ hr
    · exact fun x hx => (hexprs x (Array.mem_toList_iff.2 hx)).1
    · exact fun x hx => (hexprs x (Array.mem_toList_iff.2 hx)).2
  · exact fun e i o huse => hpassed.precede e i o huse (.inl (hlt huse))
  · exact fun e i e' j o huse huse' =>
      hpassed.once e i e' j o huse huse' (.inl (hlt huse)) (.inl (hlt huse'))

/-- The check passes exactly the units whose ids name something and whose expressions are a forest.
What it reports of any other unit is so. -/
theorem checkClosed_decides (u : TranslationUnit) :
    (u.checkClosed = .ok () ↔ u.IsForest) ∧
      ∀ defect, u.checkClosed = .error defect → u.Has defect := by
  obtain ⟨hok, herror⟩ := judges_checkClosed u
  refine ⟨⟨hok (), fun hu => ?_⟩, herror⟩
  cases h : u.checkClosed with
  | ok _ => rfl
  | error defect => exact absurd (herror defect h) (hu.not_has defect)

/-- A unit that adds an expression to itself. -/
theorem checkClosed_decides_sharedOperand :
    let u : TranslationUnit := ⟨0, "a.c", #[], #[.intLiteral 1, .binary .add 0 0], []⟩
    u.checkClosed = .error (.sharedExpr 0) ∧ u.Has (.sharedExpr 0) ∧ ¬u.IsForest := by
  intro u
  have hcheck : u.checkClosed = .error (.sharedExpr 0) := rfl
  obtain ⟨hiff, hhas⟩ := checkClosed_decides u
  refine ⟨hcheck, hhas _ hcheck, fun hu => ?_⟩
  rw [hiff.2 hu] at hcheck
  cases hcheck

end TranslationUnit

end CheckedPointers
