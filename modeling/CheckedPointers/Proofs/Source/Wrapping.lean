import CheckedPointers.Proofs.Source.Closed
import CheckedPointers.Proofs.Source.Rewording

/-!
Units with further wrappers: the same expressions with parentheses, implicit conversions and bound
temporaries put around them. Unwrapping does not look through bound temporaries, so where something
is looked for below wrappers a bound temporary must not hide it.
-/
namespace CheckedPointers

open Session (expressionLimit)

namespace TranslationUnit

variable {u u' : TranslationUnit} {place : ExprId → ExprId} {e e' : ExprId}
  {seen : ExprId → ExprId → Prop}

/-! ## Wrapped expressions -/

inductive Around (u u' : TranslationUnit) (place : ExprId → ExprId) : ExprId → ExprId → Prop where
  | copy {e : ExprId} (he : e < u.exprs.size) : Around u u' place e (place e)
  | paren {e e' inner : ExprId} (hx : u'.expr e' = .ok (.paren inner))
    (h : Around u u' place e inner) : Around u u' place e e'
  | implicitCast {e e' inner : ExprId} (hx : u'.expr e' = .ok (.implicitCast inner))
    (h : Around u u' place e inner) : Around u u' place e e'
  | bindTemporary {e e' inner : ExprId} (hx : u'.expr e' = .ok (.bindTemporary inner))
    (h : Around u u' place e inner) : Around u u' place e e'

/-- `u'` is `u` with wrappers put around expressions: it has a copy of each expression, whose
operands are copies of the operands or wrap them. Where something may be looked for below wrappers
they also stand in the relation `seen`. -/
structure Wraps (u u' : TranslationUnit) (place : ExprId → ExprId) (seen : ExprId → ExprId → Prop) :
    Prop where
  id : u'.id = u.id
  file : u'.file = u.file
  topLevel : u'.topLevel = u.topLevel
  decls : List.Forall₂ (Decl.Rewords (Around u u' place) seen) u.decls.toList u'.decls.toList
  exprs : ∀ e < u.exprs.size,
    Both (Expr.Rewords (Around u u' place) seen) (u.expr e) (u'.expr (place e))
  apart : ∀ e < u.exprs.size, ∀ d < u.exprs.size, place e = place d → e = d

theorem Around.lt (h : Around u u' place e e') : e < u.exprs.size := by
  induction h with
  | copy he => exact he
  | paren _ _ ih | implicitCast _ _ ih | bindTemporary _ _ ih => exact ih

theorem Wraps.lt (w : Wraps u u' place seen) (h : Around u u' place e e') :
    e' < u'.exprs.size := by
  cases h with
  | copy he =>
    obtain ⟨x, hx, -⟩ := expr_gives he
    obtain ⟨x', hx', -⟩ := (w.exprs e he).exists_right hx
    exact lt_of_expr hx'
  | paren hx _ | implicitCast hx _ | bindTemporary hx _ => exact lt_of_expr hx

/-- Below parentheses and implicit conversions stands no name, no call, no explicit conversion and
no number. -/
inductive PlainBelow (u : TranslationUnit) : ExprId → Prop where
  | plain {e : ExprId} {x : Expr} (hx : u.expr e = .ok x) (h : x.IsPlain) : PlainBelow u e
  | paren {e inner : ExprId} (hx : u.expr e = .ok (.paren inner)) (h : PlainBelow u inner) :
    PlainBelow u e
  | implicitCast {e inner : ExprId} (hx : u.expr e = .ok (.implicitCast inner))
    (h : PlainBelow u inner) : PlainBelow u e

/-- On the way through parentheses and conversions no bound temporary was put around anything that
may be looked for. -/
inductive Seen (u u' : TranslationUnit) (place : ExprId → ExprId) : ExprId → ExprId → Prop where
  | copy {e : ExprId} {x x' : Expr} (hx : u.expr e = .ok x) (hx' : u'.expr (place e) = .ok x')
    (h : ∀ inner inner', x.uncast? = some inner → x'.uncast? = some inner' →
      Seen u u' place inner inner') : Seen u u' place e (place e)
  | paren {e e' inner : ExprId} (hx : u'.expr e' = .ok (.paren inner))
    (h : Seen u u' place e inner) : Seen u u' place e e'
  | implicitCast {e e' inner : ExprId} (hx : u'.expr e' = .ok (.implicitCast inner))
    (h : Seen u u' place e inner) : Seen u u' place e e'
  | bindTemporary {e e' inner : ExprId} (hx : u'.expr e' = .ok (.bindTemporary inner))
    (h : u.PlainBelow e) : Seen u u' place e e'

/-- What wraps nothing is seen alike in its copy. -/
theorem Seen.core {x x' : Expr} (hx : u.expr e = .ok x) (hx' : u'.expr (place e) = .ok x')
    (h : x.uncast? = none) : Seen u u' place e (place e) :=
  .copy hx hx' fun inner _ hinner => by rw [h] at hinner; cases hinner

/-! ## Depth -/

/-- At most `n` expressions stand on a path down from an expression. -/
def Shallow (u : TranslationUnit) : Nat → ExprId → Prop
  | 0, _ => False
  | n + 1, e => ∀ x, u.expr e = .ok x → ∀ o ∈ x.operands, u.Shallow n o

def IsShallow (u : TranslationUnit) : Prop := ∀ e, u.Shallow (expressionLimit + 1) e

variable {wraps : Expr → Option ExprId} {n n' : Nat}

/-- Operands need one look less than the expression they stand in. -/
theorem Closed.operand_lt_of_lt (hu : u.Closed) {x : Expr} {o : ExprId} (hx : u.expr e = .ok x)
    (ho : o ∈ x.operands) (he : e < n + 1) : o < n :=
  Nat.lt_of_lt_of_le (hu.operands e x hx o ho) (Nat.le_of_lt_succ he)

theorem Closed.shallow (hu : u.Closed) (he : e < n) : u.Shallow n e := by
  induction n generalizing e with
  | zero => exact absurd he (Nat.not_lt_zero e)
  | succ n ih => exact fun x hx o ho => ih (hu.operand_lt_of_lt hx ho he)

/-- A closed unit with few expressions is shallow. -/
theorem Closed.isShallow (hu : u.Closed) (hsize : u.exprs.size ≤ expressionLimit + 1) :
    u.IsShallow := by
  intro e
  by_cases he : e < u.exprs.size
  · exact hu.shallow (Nat.lt_of_lt_of_le he hsize)
  · intro x hx
    exact absurd (lt_of_expr hx) he

/-! ## Looking through wrappers -/

/-- A way of unwrapping expressions that looks through parentheses and implicit conversions, perhaps
through explicit ones, and not into plain expressions. -/
structure LooksThrough (wraps : Expr → Option ExprId) : Prop where
  paren : ∀ inner, wraps (.paren inner) = some inner
  implicitCast : ∀ inner, wraps (.implicitCast inner) = some inner
  plain : ∀ x : Expr, x.IsPlain → wraps x = none
  uncast : ∀ x inner, wraps x = some inner → x.uncast? = some inner
  rewords : ∀ {r q : ExprId → ExprId → Prop} {x x' : Expr}, x.Rewords r q x' →
    Option.Rel r (wraps x) (wraps x')

theorem looksThrough_unparen : LooksThrough Expr.unparen? where
  paren _ := rfl
  implicitCast _ := rfl
  plain x hx := by cases x <;> first | rfl | exact hx.elim
  uncast _ _ := Expr.uncast?_of_unparen?
  rewords h := by cases h <;> constructor <;> assumption

theorem looksThrough_uncast : LooksThrough Expr.uncast? where
  paren _ := rfl
  implicitCast _ := rfl
  plain x hx := hx.uncast?
  uncast x inner h := h
  rewords h := by cases h <;> constructor <;> assumption

theorem LooksThrough.operand (hw : LooksThrough wraps) {x : Expr} {inner : ExprId}
    (h : wraps x = some inner) : inner ∈ x.operands :=
  Expr.mem_operands_of_uncast? (hw.uncast x inner h)

/-- Unwrapping ends at the plain expression below. -/
theorem PlainBelow.unwrapWithin (hu : u.Closed) (hw : LooksThrough wraps) (h : u.PlainBelow e)
    (he : e < n) : ∃ c, u.unwrapWithin wraps n e = .ok c ∧ u.HoldsPlain c := by
  induction h generalizing n with
  | @plain e x hx h =>
    obtain ⟨n, rfl⟩ := Nat.exists_eq_add_one_of_ne_zero (Nat.ne_zero_of_lt he)
    exact ⟨e, unwrapWithin_core hx (hw.plain x h), x, hx, h⟩
  | @paren e inner hx _ ih =>
    obtain ⟨n, rfl⟩ := Nat.exists_eq_add_one_of_ne_zero (Nat.ne_zero_of_lt he)
    rw [unwrapWithin_wrapped hx (hw.paren inner)]
    exact ih (hu.operand_lt_of_lt hx List.mem_cons_self he)
  | @implicitCast e inner hx _ ih =>
    obtain ⟨n, rfl⟩ := Nat.exists_eq_add_one_of_ne_zero (Nat.ne_zero_of_lt he)
    rw [unwrapWithin_wrapped hx (hw.implicitCast inner)]
    exact ih (hu.operand_lt_of_lt hx List.mem_cons_self he)

/-- Below wrappers stand copies of one expression, or plain expressions. -/
theorem Wraps.unwrapWithin (w : Wraps u u' place (Seen u u' place)) (hu : u.Closed)
    (hu' : u'.Closed) (hw : LooksThrough wraps) (he : e < n) (he' : e' < n')
    (h : Seen u u' place e e') :
    Both (SameCore u u' (Around u u' place) (Seen u u' place)) (u.unwrapWithin wraps n e)
      (u'.unwrapWithin wraps n' e') := by
  -- each step takes away a wrapper of the second expression, alone or with one of the first
  induction n' generalizing n e e' with
  | zero => exact absurd he' (Nat.not_lt_zero e')
  | succ n' ih =>
    cases h with
    | @copy _ x x' hx hx' h =>
      obtain ⟨n, rfl⟩ := Nat.exists_eq_add_one_of_ne_zero (Nat.ne_zero_of_lt he)
      have hxx' := w.exprs e (lt_of_expr hx)
      rw [hx, hx'] at hxx'
      have hrel := hw.rewords hxx'
      cases hwx : wraps x <;> cases hwx' : wraps x' <;> rw [hwx, hwx'] at hrel
      · rw [unwrapWithin_core hx hwx, unwrapWithin_core hx' hwx']
        exact Both.pure (.same hx hx' (.copy hx hx' h) hxx')
      · cases hrel
      · cases hrel
      · rw [unwrapWithin_wrapped hx hwx, unwrapWithin_wrapped hx' hwx']
        exact ih (hu.operand_lt_of_lt hx (hw.operand hwx) he)
          (hu'.operand_lt_of_lt hx' (hw.operand hwx') he')
          (h _ _ (hw.uncast x _ hwx) (hw.uncast x' _ hwx'))
    | paren hx' h =>
      rw [unwrapWithin_wrapped hx' (hw.paren _)]
      exact ih he (hu'.operand_lt_of_lt hx' List.mem_cons_self he') h
    | implicitCast hx' h =>
      rw [unwrapWithin_wrapped hx' (hw.implicitCast _)]
      exact ih he (hu'.operand_lt_of_lt hx' List.mem_cons_self he') h
    | bindTemporary hx' hplain =>
      obtain ⟨c, hc, hholds⟩ := hplain.unwrapWithin hu hw he
      rw [hc, unwrapWithin_core hx' (hw.plain _ trivial)]
      exact Both.pure (.plain hholds ⟨_, hx', trivial⟩)

theorem PlainBelow.lt (h : u.PlainBelow e) : e < u.exprs.size := by
  cases h with
  | plain hx _ | paren hx _ | implicitCast hx _ => exact lt_of_expr hx

theorem Seen.lt (h : Seen u u' place e e') : e < u.exprs.size ∧ e' < u'.exprs.size := by
  induction h with
  | copy hx hx' _ _ => exact ⟨lt_of_expr hx, lt_of_expr hx'⟩
  | paren hx _ ih | implicitCast hx _ ih => exact ⟨ih.1, lt_of_expr hx⟩
  | bindTemporary hx h => exact ⟨h.lt, lt_of_expr hx⟩

/-! ## Rewording -/

def Wraps.rewording (w : Wraps u u' place (Seen u u' place)) (hu : u.Closed) (hu' : u'.Closed)
    (hs : u.IsShallow) (hs' : u'.IsShallow) : u.Rewording u' where
  Within n e n' e' := u.Shallow n e ∧ u'.Shallow n' e' ∧ Around u u' place e e'
  Seen := Seen u u' place
  Key e e' := e < u.exprs.size ∧ e' = place e
  id := w.id
  file := w.file
  topLevel := w.topLevel
  decls := w.decls.imp fun _ _ => Decl.Rewords.mono fun e e' h => ⟨hs e, hs' e', h⟩
  restart h := ⟨hs _, hs' _, h.2.2⟩
  keys := by
    rintro e e' d d' ⟨he, rfl⟩ ⟨hd, rfl⟩
    exact ⟨congrArg place, w.apart e he d hd⟩
  step := by
    rintro n e n' e' ⟨hn, hn', h⟩
    obtain _ | n' := n'
    · exact hn'.elim
    · cases h with
      | copy he =>
        obtain _ | n := n
        · exact hn.elim
        · refine .node ⟨he, rfl⟩ ?_
          obtain ⟨x, hx, -⟩ := expr_gives he
          obtain ⟨x', hx', hxx'⟩ := (w.exprs e he).exists_right hx
          rw [hx, hx']
          exact hxx'.mono fun o ho o' ho' h => ⟨hn x hx o ho, hn' x' hx' o' ho', h⟩
      | paren hx' h | implicitCast hx' h | bindTemporary hx' h =>
        exact .wrapped hx' rfl ⟨hn, hn' _ hx' _ List.mem_cons_self, h⟩
  counted := by
    rintro n e n' e' ⟨-, -, h⟩
    exact Both.answered ((hu.elementCount?_gives h.lt).imp fun _ h => h.1)
      ((hu'.elementCount?_gives (w.lt h)).imp fun _ h => h.1)
  unparen h :=
    (w.unwrapWithin hu hu' looksThrough_unparen (Nat.lt_succ_of_lt h.lt.1)
      (Nat.lt_succ_of_lt h.lt.2) h).mono fun _ _ => SameCore.mono fun e e' h => ⟨hs e, hs' e', h⟩
  uncast h :=
    (w.unwrapWithin hu hu' looksThrough_uncast (Nat.lt_succ_of_lt h.lt.1)
      (Nat.lt_succ_of_lt h.lt.2) h).mono fun _ _ => SameCore.mono fun e e' h => ⟨hs e, hs' e', h⟩

end TranslationUnit

end CheckedPointers
