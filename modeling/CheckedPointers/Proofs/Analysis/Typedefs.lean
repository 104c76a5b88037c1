import CheckedPointers.Proofs.Analysis.Rewording

/-!
Typedefs mean nothing to the analysis. With every typedef replaced by what it stands for, a program
comes to the same outcome, up to the spelling of types in the assignment.
-/
namespace CheckedPointers

open CType Session

/-! ## Programs without typedefs -/

def Expr.erased : Expr → Expr
  | .cast ty inner => .cast ty.erased inner
  | .sizeOf ty => .sizeOf ty.erased
  | x => x

def Signature.erased (s : Signature) : Signature :=
  { s with ret := s.ret.erased, params := s.params.map CType.erased }

def DeclKind.erased : DeclKind → DeclKind
  | .var ty isGlobal itype init => .var ty.erased isGlobal itype init
  | .field ty itype => .field ty.erased itype
  | .function signature params isGlobal body => .function signature.erased params isGlobal body
  | .param ty owner itype => .param ty.erased owner itype
  | .typedef ty => .typedef ty.erased
  | .enumConstant value => .enumConstant value

def Decl.erased (d : Decl) : Decl := { d with kind := d.kind.erased }

def Expr.types : Expr → List CType
  | .cast ty _ | .sizeOf ty => [ty]
  | _ => []

namespace TranslationUnit

def erased (u : TranslationUnit) : TranslationUnit :=
  { u with decls := u.decls.map Decl.erased, exprs := u.exprs.map Expr.erased }

/-- The types that a unit declares, casts to or takes the size of. -/
def types (u : TranslationUnit) : List CType :=
  u.decls.toList.filterMap Decl.ty? ++ u.exprs.toList.flatMap Expr.types

end TranslationUnit

theorem Signature.toType_erased (s : Signature) : s.erased.toType = s.toType.erased := by
  rw [toType, toType, CType.erased, erasedAll_eq_map]
  rfl

/-! ## Rewording -/

theorem rel_refl {α : Type} {r : α → α → Prop} (hr : ∀ a, r a a) (x : Option α) :
    Option.Rel r x x := by
  cases x with
  | none => exact .none
  | some a => exact .some (hr a)

section

variable {r q : ExprId → ExprId → Prop} (hr : ∀ e, r e e) (hq : ∀ e, q e e)

include hr hq

theorem Stmt.RewordsAll.refl (body : List Stmt) : Stmt.RewordsAll r q body body := by
  rw [RewordsAll]
  induction body using Stmt.unblocked.induct with
  | case1 => simp [unblocked]
  | case2 stmts rest ih => rwa [unblocked]
  | case3 s rest h ih =>
    have hs : s.Rewords r q s := by
      cases s with
      | block stmts => exact absurd rfl (h stmts)
      | expr e => exact .expr (hr e)
      | decl d => exact .decl d
      | ret value => exact .ret (rel_refl (fun e => ⟨hr e, hq e⟩) value)
    rw [unblocked]
    · exact .cons hs ih
    · exact h

/-- A declaration is reworded by its erased form, if its types can be compared to their end. -/
theorem Decl.rewords_erased {d : Decl} (h : ∀ ty ∈ d.ty?, ty.nesting ≤ comparisonLimit) :
    d.Rewords r q d.erased := by
  refine ⟨rfl, rfl, rfl, ?_⟩
  obtain ⟨name, anchor, inMacro, kind⟩ := d
  cases kind with
  | enumConstant value => exact .enumConstant value
  | var ty isGlobal itype init =>
    exact .var isGlobal itype (.to_erased (h ty rfl)) (rel_refl (fun e => ⟨hr e, hq e⟩) init)
  | field ty itype => exact .field itype (.to_erased (h ty rfl))
  | param ty owner itype => exact .param owner itype (.to_erased (h ty rfl))
  | typedef ty => exact .typedef (.to_erased (h ty rfl))
  | function signature params isGlobal body =>
    refine .function params isGlobal ?_ (rel_refl (Stmt.RewordsAll.refl hr hq) body)
    rw [Signature.toType_erased]
    exact .to_erased (h _ rfl)

/-- An expression is reworded by its erased form if its types can be compared to their end. -/
theorem Expr.rewords_erased {x : Expr} (h : ∀ ty ∈ x.types, ty.nesting ≤ comparisonLimit) :
    x.Rewords r q x.erased := by
  cases x with
  | cast ty inner => exact .cast (.to_erased (h ty List.mem_cons_self)) (hr inner) (hq inner)
  | call callee args => exact .call (hr callee) (hq callee) (List.forall₂_same.2 fun e _ => hr e)
  | binary op lhs rhs => exact .binary op (hr lhs) (hr rhs) fun _ => ⟨hq lhs, hq rhs⟩
  | subscript base index => exact .subscript (hr base) (hr index) (hq index)
  | sizeOf ty => exact .sizeOf ty ty.erased
  | _ => constructor <;> exact hr _

end

namespace TranslationUnit

variable {u : TranslationUnit} {r q : ExprId → ExprId → Prop}

theorem expr_erased (u : TranslationUnit) (e : ExprId) :
    u.erased.expr e = Expr.erased <$> u.expr e := by
  rw [expr, expr, erased, Array.getElem?_map]
  cases u.exprs[e]? <;> rfl

theorem mem_types_of_expr {e : ExprId} {x : Expr} (hx : u.expr e = .ok x) {ty : CType}
    (h : ty ∈ x.types) : ty ∈ u.types := by
  have hmem : x ∈ u.exprs.toList := by
    rw [expr] at hx
    split at hx
    · cases hx
      exact Array.mem_toList_iff.2 (Array.mem_of_getElem? ‹_›)
    · cases hx
  exact List.mem_append_right _ (List.mem_flatMap.2 ⟨x, hmem, h⟩)

/-- Typedefs hide no wrapper. -/
theorem unwrapWithin_erased {wraps : Expr → Option ExprId}
    (hwraps : ∀ x : Expr, wraps x.erased = wraps x) (n : Nat) (e : ExprId) :
    u.erased.unwrapWithin wraps n e = u.unwrapWithin wraps n e := by
  induction n generalizing e with
  | zero => rfl
  | succ n ih =>
    rw [unwrapWithin, unwrapWithin, expr_erased]
    cases u.expr e with
    | error f => rfl
    | ok x =>
      simp only [Functor.map, Except.map, bind, Except.bind, hwraps]
      cases wraps x with
      | some inner => exact ih inner
      | none => rfl

theorem unparen_erased (e : ExprId) : u.erased.unparen e = u.unparen e := by
  rw [unparen, unparen, unwrapWithin_erased fun x => by cases x <;> rfl]
  simp [erased]

theorem uncast_erased (e : ExprId) : u.erased.uncast e = u.uncast e := by
  rw [uncast, uncast, unwrapWithin_erased fun x => by cases x <;> rfl]
  simp [erased]

theorem isSizeOf_erased (e : ExprId) : u.erased.isSizeOf e = u.isSizeOf e := by
  rw [isSizeOf, isSizeOf, uncast_erased]
  cases u.uncast e with
  | error f => rfl
  | ok c =>
    simp only [bind, Except.bind, expr_erased]
    cases u.expr c with
    | error f => rfl
    | ok x => cases x <;> rfl

theorem elementCount?_erased (e : ExprId) : u.erased.elementCount? e = u.elementCount? e := by
  rw [elementCount?, elementCount?, uncast_erased]
  cases u.uncast e with
  | error f => rfl
  | ok c =>
    simp only [bind, Except.bind, expr_erased, isSizeOf_erased]
    cases u.expr c with
    | error f => rfl
    | ok x => cases x <;> rfl

/-- Unwrapping ends at an expression of the unit. -/
theorem expr_of_unwrapWithin {wraps : Expr → Option ExprId} {n : Nat} {e c : ExprId}
    (h : u.unwrapWithin wraps n e = .ok c) : ∃ x, u.expr c = .ok x := by
  induction n generalizing e with
  | zero => cases h
  | succ n ih =>
    rw [unwrapWithin] at h
    cases hx : u.expr e with
    | error f =>
      rw [hx] at h
      cases h
    | ok x =>
      simp only [hx, bind, Except.bind] at h
      split at h
      · exact ih h
      · cases h
        exact ⟨x, hx⟩

section

variable (hr : ∀ e, r e e) (hq : ∀ e, q e e) (h : ∀ ty ∈ u.types, ty.nesting ≤ comparisonLimit)

include hr hq h

/-- Every expression stays as it is but for the types in it. -/
theorem expr_rewords_erased (e : ExprId) :
    Both (Expr.Rewords r q) (u.expr e) (u.erased.expr e) := by
  rw [expr_erased]
  cases hx : u.expr e with
  | error f => trivial
  | ok x => exact Expr.rewords_erased hr hq fun ty hty => h ty (mem_types_of_expr hx hty)

/-- Erasure touches no wrapper, so the same core is found. -/
theorem sameCore_erased {wraps : Expr → Option ExprId} {n : Nat} (e : ExprId) :
    Both (SameCore u u.erased r q) (u.unwrapWithin wraps n e) (u.unwrapWithin wraps n e) := by
  cases hc : u.unwrapWithin wraps n e with
  | error f => trivial
  | ok c =>
    obtain ⟨x, hx⟩ := expr_of_unwrapWithin hc
    obtain ⟨x', hx', hxx'⟩ := (expr_rewords_erased hr hq h c).exists_right hx
    exact .same hx hx' (hq c) hxx'

end

def rewordingErased (u : TranslationUnit) (h : ∀ ty ∈ u.types, ty.nesting ≤ comparisonLimit) :
    u.Rewording u.erased where
  Within n e n' e' := n = n' ∧ e = e'
  Seen := Eq
  Key := Eq
  id := rfl
  file := rfl
  topLevel := rfl
  decls := by
    rw [erased, Array.toList_map, List.forall₂_map_right_iff, List.forall₂_same]
    intro d hd
    refine Decl.rewords_erased (fun e => ⟨rfl, rfl⟩) (fun e => rfl) fun ty hty => h ty ?_
    exact List.mem_append_left _ (List.mem_filterMap.2 ⟨d, hd, hty⟩)
  restart h := ⟨rfl, h.2⟩
  keys h h' := by rw [h, h']
  step := by
    rintro n e _ _ ⟨rfl, rfl⟩
    cases n with
    | zero => exact .spent e e
    | succ n => exact .node rfl (expr_rewords_erased (fun e => ⟨rfl, rfl⟩) (fun e => rfl) h e)
  counted := by
    rintro n e _ _ ⟨-, rfl⟩
    rw [elementCount?_erased]
    exact (Both.refl _).mono fun _ _ _ => trivial
  unparen := by
    rintro e _ rfl
    rw [unparen_erased]
    exact sameCore_erased (fun e => ⟨rfl, rfl⟩) (fun e => rfl) h e
  uncast := by
    rintro e _ rfl
    rw [uncast_erased]
    exact sameCore_erased (fun e => ⟨rfl, rfl⟩) (fun e => rfl) h e

end TranslationUnit

namespace Session

open Op TranslationUnit

/-- Replacing every typedef by what it stands for changes the spelling of types in the assignment
and nothing else, as long as no type nests too deeply to be compared to its end. -/
theorem analyse_erased {units : List TranslationUnit} {options : Options} {outcome : Outcome}
    {s : Session} (hnesting : ∀ u ∈ units, ∀ ty ∈ u.types, ty.nesting ≤ comparisonLimit)
    (h : (analyse units).Ends (.new options) outcome s) :
    ∃ outcome' s', (analyse (units.map TranslationUnit.erased)).Ends (.new options) outcome' s' ∧
      outcome'.unspelled = outcome.unspelled := by
  have hreworded : Reworded units (units.map TranslationUnit.erased) := by
    rw [Reworded, List.forall₂_map_right_iff, List.forall₂_same]
    exact fun u hu => ⟨u.rewordingErased (hnesting u hu)⟩
  obtain ⟨outcome', s', h', -, heq⟩ :=
    (analyse_echoes (K := fun _ _ => False) hreworded).of_ends (Echoes.new options) h
  exact ⟨outcome', s', h', heq⟩

/-- The declarations `intp p; int *q; int (*h)(intp);` and a function that assigns `(intp) q`. -/
def aliasedUnit : TranslationUnit :=
  let name := "intp"
  let intp : CType := .typedef name (.pointer .int)
  { id := 0
    file := "a.c"
    decls := #[
      ⟨"p", ⟨"a.c", 1, 6⟩, false, .var intp true none none⟩,
      ⟨"q", ⟨"a.c", 2, 6⟩, false, .var (.pointer .int) true none none⟩,
      ⟨"h", ⟨"a.c", 3, 6⟩, false, .var (.pointer (.function .int [intp] false true)) true none none⟩,
      ⟨"f", ⟨"a.c", 4, 6⟩, false, .function ⟨.int, [], false, true⟩ [] true (some [.expr 3])⟩]
    exprs := #[.declRef 0, .declRef 1, .cast intp 1, .binary .assign 0 2]
    topLevel := [0, 1, 2, 3] }

/-- The erased program is analysed alike. -/
theorem analyse_erased_aliasedUnit :
    (∀ u ∈ [aliasedUnit], ∀ ty ∈ u.types, ty.nesting ≤ comparisonLimit) ∧
    ∃ outcome s outcome' s', (analyse [aliasedUnit]).Ends (.new .default) outcome s ∧
      (analyse [aliasedUnit.erased]).Ends (.new .default) outcome' s' ∧
      outcome'.unspelled = outcome.unspelled ∧
      (outcome.assignment.at? ⟨"a.c", 1, 6⟩).map (·.map Report.categories) = some [[.ptr]] := by
  have hnesting : ∀ u ∈ [aliasedUnit], ∀ ty ∈ u.types, ty.nesting ≤ comparisonLimit := by
    decide +kernel
  obtain ⟨outcome, s, h, hlook⟩ := exists_ends (x := analyse [aliasedUnit]) (s := .new .default)
    (g := fun o _ => (o.assignment.at? ⟨"a.c", 1, 6⟩).map (·.map Report.categories))
    (b := some [[.ptr]]) (by decide +kernel)
  obtain ⟨outcome', s', h', heq⟩ := analyse_erased hnesting h
  exact ⟨hnesting, outcome, s, outcome', s', h, h', heq, hlook⟩

end Session

end CheckedPointers
