import CheckedPointers.Proofs.Analysis.Rewording
import CheckedPointers.Proofs.Source.Wrapping
import Mathlib.Tactic.IntervalCases

/-!
Wrappers mean nothing to the analysis: parentheses and implicit conversions anywhere, and bound
temporaries wherever nothing is looked for below them. A bound temporary around a called name, an
explicit conversion or an index hides it.
-/
namespace CheckedPointers

namespace Session

open Op TranslationUnit

/-- Programs that differ in wrappers come to the same outcome, or both come to none, as long as no
bound temporary hides what is looked for. -/
theorem analyse_wrapped {units units' : List TranslationUnit} {options : Options}
    (hunits : ∀ u ∈ units, u.checkClosed = .ok () ∧ u.IsShallow)
    (hunits' : ∀ u ∈ units', u.checkClosed = .ok () ∧ u.IsShallow)
    (h : List.Forall₂ (fun u u' => ∃ place, Wraps u u' place (Seen u u' place)) units units') :
    (∀ outcome s, (analyse units).Ends (.new options) outcome s →
      ∃ outcome' s', (analyse units').Ends (.new options) outcome' s' ∧
        outcome'.unspelled = outcome.unspelled) ∧
    (∀ outcome' s', (analyse units').Ends (.new options) outcome' s' →
      ∃ outcome s, (analyse units).Ends (.new options) outcome s ∧
        outcome'.unspelled = outcome.unspelled) := by
  have hreworded : Reworded units units' := by
    induction h with
    | nil => exact .nil
    | @cons u u' rest rest' hw _ ih =>
      obtain ⟨place, w⟩ := hw
      rw [List.forall_mem_cons] at hunits hunits'
      refine .cons ⟨w.rewording (closed_of_checkClosed hunits.1.1)
        (closed_of_checkClosed hunits'.1.1) hunits.1.2 hunits'.1.2⟩ ?_
      exact ih hunits.2 hunits'.2
  have hleads := analyse_echoes (K := fun _ _ => False) hreworded
  constructor
  · intro outcome s hs
    obtain ⟨outcome', s', h', -, heq⟩ := hleads.of_ends (Echoes.new options) hs
    exact ⟨outcome', s', h', heq⟩
  · intro outcome' s' hs'
    obtain ⟨outcome, s, h, -, heq⟩ := hleads.of_ends_right (Echoes.new options) hs'
    exact ⟨outcome, s, h, heq⟩

/-- Two global pointers and the function `void f(void) { q = (int *) p; q[1]; }`, whose statements
are the given expressions. -/
def castingDecls (first second : ExprId) : Array Decl := #[
  ⟨"p", ⟨"a.c", 1, 6⟩, false, .var (.pointer .int) true none none⟩,
  ⟨"q", ⟨"a.c", 2, 6⟩, false, .var (.pointer .int) true none none⟩,
  ⟨"f", ⟨"a.c", 3, 6⟩, false,
    .function ⟨.builtin "void", [], false, true⟩ [] true (some [.expr first, .expr second])⟩]

def castingUnit : TranslationUnit :=
  { id := 0
    file := "a.c"
    decls := castingDecls 3 6
    exprs := #[.declRef 1, .declRef 0, .cast (.pointer .int) 1, .binary .assign 0 2, .declRef 1,
      .intLiteral 1, .subscript 4 5]
    topLevel := [0, 1, 2] }

/-- The same with parentheses around the assigned name, an implicit conversion around its value and
a bound temporary around what is subscripted. -/
def wrappedCastingUnit : TranslationUnit :=
  { castingUnit with
    decls := castingDecls 5 9
    exprs := #[.declRef 1, .paren 0, .declRef 0, .cast (.pointer .int) 2, .implicitCast 3,
      .binary .assign 1 4, .declRef 1, .bindTemporary 6, .intLiteral 1, .subscript 7 8] }

/-- Around every expression of the copy stand only wrappers that hide nothing. -/
theorem wraps_castingUnit : ∃ place, Wraps castingUnit wrappedCastingUnit place
    (Seen castingUnit wrappedCastingUnit place) := by
  let place : ExprId → ExprId := ([0, 2, 3, 5, 6, 8, 9].getD · 0)
  have hcopy : ∀ e < 7, Around castingUnit wrappedCastingUnit place e (place e) :=
    fun e he => .copy he
  have hassigned : Around castingUnit wrappedCastingUnit place 0 1 := .paren rfl (hcopy 0 (by decide))
  have hvalue : Around castingUnit wrappedCastingUnit place 2 4 :=
    .implicitCast rfl (hcopy 2 (by decide))
  have hbase : Around castingUnit wrappedCastingUnit place 4 7 :=
    .bindTemporary rfl (hcopy 4 (by decide))
  have hseen : Seen castingUnit wrappedCastingUnit place 0 1 := .paren rfl (.core rfl rfl rfl)
  have hconverted : Seen castingUnit wrappedCastingUnit place 1 2 := .core rfl rfl rfl
  have hindex : Seen castingUnit wrappedCastingUnit place 5 8 := .core rfl rfl rfl
  have hcast : Seen castingUnit wrappedCastingUnit place 2 4 := by
    refine .implicitCast rfl (.copy rfl rfl ?_)
    rintro _ _ ⟨⟩ ⟨⟩
    exact hconverted
  refine ⟨place, rfl, rfl, rfl, ?_, ?_, ?_⟩
  · have hbody : Stmt.RewordsAll (Around castingUnit wrappedCastingUnit place)
        (Seen castingUnit wrappedCastingUnit place) [.expr 3, .expr 6] [.expr 5, .expr 9] := by
      simp only [Stmt.RewordsAll, Stmt.unblocked]
      exact .cons (.expr (hcopy 3 (by decide))) (.cons (.expr (hcopy 6 (by decide))) .nil)
    exact .cons ⟨rfl, rfl, rfl, .var true none (.refl _) .none⟩
      (.cons ⟨rfl, rfl, rfl, .var true none (.refl _) .none⟩
      (.cons ⟨rfl, rfl, rfl, .function [] true (.refl _) (.some hbody)⟩ .nil))
  · intro e he
    change e < 7 at he
    interval_cases e
    · exact Expr.Rewords.declRef 1
    · exact Expr.Rewords.declRef 0
    · exact Expr.Rewords.cast (.refl _) (hcopy 1 (by decide)) hconverted
    · exact Expr.Rewords.binary .assign hassigned hvalue fun _ => ⟨hseen, hcast⟩
    · exact Expr.Rewords.declRef 1
    · exact Expr.Rewords.intLiteral 1
    · exact Expr.Rewords.subscript hbase (hcopy 5 (by decide)) hindex
  · decide

/-- A closed unit of few expressions can be looked at in all its depth. -/
theorem isShallow_of_checkClosed {u : TranslationUnit} (h : u.checkClosed = .ok ())
    (hsize : u.exprs.size ≤ expressionLimit + 1) : u.IsShallow :=
  (closed_of_checkClosed h).isShallow hsize

/-- With and without wrappers the program is analysed alike. -/
theorem analyse_wrapped_castingUnit :
    (∀ u ∈ [castingUnit], u.checkClosed = .ok () ∧ u.IsShallow) ∧
    (∀ u ∈ [wrappedCastingUnit], u.checkClosed = .ok () ∧ u.IsShallow) ∧
    List.Forall₂ (fun u u' => ∃ place, Wraps u u' place (Seen u u' place)) [castingUnit]
      [wrappedCastingUnit] ∧
    ∃ outcome s outcome' s', (analyse [castingUnit]).Ends (.new .default) outcome s ∧
      (analyse [wrappedCastingUnit]).Ends (.new .default) outcome' s' ∧
      outcome'.unspelled = outcome.unspelled ∧
      (outcome.assignment.at? ⟨"a.c", 1, 6⟩).map (·.map Report.categories) = some [[.arr]] := by
  have hclosed : castingUnit.checkClosed = .ok () := by decide +kernel
  have hclosed' : wrappedCastingUnit.checkClosed = .ok () := by decide +kernel
  have hunits : ∀ u ∈ [castingUnit], u.checkClosed = .ok () ∧ u.IsShallow :=
    List.forall_mem_singleton.2 ⟨hclosed, isShallow_of_checkClosed hclosed (by decide)⟩
  have hunits' : ∀ u ∈ [wrappedCastingUnit], u.checkClosed = .ok () ∧ u.IsShallow :=
    List.forall_mem_singleton.2 ⟨hclosed', isShallow_of_checkClosed hclosed' (by decide)⟩
  have hwraps : List.Forall₂ (fun u u' => ∃ place, Wraps u u' place (Seen u u' place))
      [castingUnit] [wrappedCastingUnit] := .cons wraps_castingUnit .nil
  obtain ⟨outcome, s, h, hlook⟩ := exists_ends (x := analyse [castingUnit]) (s := .new .default)
    (g := fun o _ => (o.assignment.at? ⟨"a.c", 1, 6⟩).map (·.map Report.categories))
    (b := some [[.arr]]) (by decide +kernel)
  obtain ⟨outcome', s', h', heq⟩ := (analyse_wrapped hunits hunits' hwraps).1 outcome s h
  exact ⟨hunits, hunits', hwraps, outcome, s, outcome', s', h, h', heq, hlook⟩

/-! ## Hidden callees -/

/-- Two global pointers that get results of an external function, and one of which is subscripted:
`void f(void) { p = malloc(4); q = malloc(8); p[1]; }`. -/
def allocatingDecls (first second third : ExprId) : Array Decl := #[
  ⟨"malloc", ⟨"stdlib.h", 1, 7⟩, false,
    .function ⟨.pointer (.builtin "void"), [.int], false, true⟩ [] true none⟩,
  ⟨"p", ⟨"a.c", 1, 6⟩, false, .var (.pointer .int) true none none⟩,
  ⟨"q", ⟨"a.c", 2, 6⟩, false, .var (.pointer .int) true none none⟩,
  ⟨"f", ⟨"a.c", 3, 6⟩, false, .function ⟨.builtin "void", [], false, true⟩ [] true
    (some [.expr first, .expr second, .expr third])⟩]

def allocatingUnit : TranslationUnit :=
  { id := 0
    file := "a.c"
    decls := allocatingDecls 4 9 12
    exprs := #[.declRef 1, .declRef 0, .intLiteral 4, .call 1 [2], .binary .assign 0 3,
      .declRef 2, .declRef 0, .intLiteral 8, .call 6 [7], .binary .assign 5 8,
      .declRef 1, .intLiteral 1, .subscript 10 11]
    topLevel := [0, 1, 2, 3] }

/-- The same with bound temporaries around the called names. -/
def boundCalleeUnit : TranslationUnit :=
  { allocatingUnit with
    decls := allocatingDecls 5 11 14
    exprs := #[.declRef 1, .declRef 0, .bindTemporary 1, .intLiteral 4, .call 2 [3],
      .binary .assign 0 4, .declRef 2, .declRef 0, .bindTemporary 7, .intLiteral 8, .call 8 [9],
      .binary .assign 6 10, .declRef 1, .intLiteral 1, .subscript 12 13] }

/-- The copy has wrappers around names of callees, where a bound temporary does hide something. -/
theorem wraps_allocatingUnit :
    ∃ place, Wraps allocatingUnit boundCalleeUnit place fun _ _ => True := by
  let place : ExprId → ExprId := ([0, 1, 3, 4, 5, 6, 7, 9, 10, 11, 12, 13, 14].getD · 0)
  have hcopy : ∀ e < 13, Around allocatingUnit boundCalleeUnit place e (place e) :=
    fun e he => .copy he
  have hfirst : Around allocatingUnit boundCalleeUnit place 1 2 :=
    .bindTemporary rfl (hcopy 1 (by decide))
  have hsecond : Around allocatingUnit boundCalleeUnit place 6 8 :=
    .bindTemporary rfl (hcopy 6 (by decide))
  refine ⟨place, rfl, rfl, rfl, ?_, ?_, by decide⟩
  · have hbody : Stmt.RewordsAll (Around allocatingUnit boundCalleeUnit place) (fun _ _ => True)
        [.expr 4, .expr 9, .expr 12] [.expr 5, .expr 11, .expr 14] := by
      simp only [Stmt.RewordsAll, Stmt.unblocked]
      exact .cons (.expr (hcopy 4 (by decide))) (.cons (.expr (hcopy 9 (by decide)))
        (.cons (.expr (hcopy 12 (by decide))) .nil))
    exact .cons ⟨rfl, rfl, rfl, .function [] true (.refl _) .none⟩
      (.cons ⟨rfl, rfl, rfl, .var true none (.refl _) .none⟩
      (.cons ⟨rfl, rfl, rfl, .var true none (.refl _) .none⟩
      (.cons ⟨rfl, rfl, rfl, .function [] true (.refl _) (.some hbody)⟩ .nil)))
  · intro e he
    change e < 13 at he
    interval_cases e
    · exact Expr.Rewords.declRef 1
    · exact Expr.Rewords.declRef 0
    · exact Expr.Rewords.intLiteral 4
    · exact Expr.Rewords.call hfirst trivial (.cons (hcopy 2 (by decide)) .nil)
    · exact Expr.Rewords.binary .assign (hcopy 0 (by decide)) (hcopy 3 (by decide))
        fun _ => ⟨trivial, trivial⟩
    · exact Expr.Rewords.declRef 2
    · exact Expr.Rewords.declRef 0
    · exact Expr.Rewords.intLiteral 8
    · exact Expr.Rewords.call hsecond trivial (.cons (hcopy 7 (by decide)) .nil)
    · exact Expr.Rewords.binary .assign (hcopy 5 (by decide)) (hcopy 8 (by decide))
        fun _ => ⟨trivial, trivial⟩
    · exact Expr.Rewords.declRef 1
    · exact Expr.Rewords.intLiteral 1
    · exact Expr.Rewords.subscript (hcopy 10 (by decide)) (hcopy 11 (by decide)) trivial

/-- A bound temporary around a called name hides it: the call is no longer one of an allowed
function, and what it returns is equated with whatever it is assigned to. -/
theorem analyse_boundCallee :
    ∃ u u' place outcome s outcome' s', u.checkClosed = .ok () ∧ u.IsShallow ∧
      u'.checkClosed = .ok () ∧ u'.IsShallow ∧ Wraps u u' place (fun _ _ => True) ∧
      (analyse [u]).Ends (.new .default) outcome s ∧
      (analyse [u']).Ends (.new .default) outcome' s' ∧
      (outcome.assignment.at? ⟨"a.c", 2, 6⟩).map (·.map Report.categories) = some [[.ptr]] ∧
      (outcome'.assignment.at? ⟨"a.c", 2, 6⟩).map (·.map Report.categories) = some [[.arr]] := by
  have hclosed : allocatingUnit.checkClosed = .ok () := by decide +kernel
  have hclosed' : boundCalleeUnit.checkClosed = .ok () := by decide +kernel
  obtain ⟨place, hwraps⟩ := wraps_allocatingUnit
  obtain ⟨outcome, s, h, hlook⟩ := exists_ends (x := analyse [allocatingUnit]) (s := .new .default)
    (g := fun o _ => (o.assignment.at? ⟨"a.c", 2, 6⟩).map (·.map Report.categories))
    (b := some [[.ptr]]) (by decide +kernel)
  obtain ⟨outcome', s', h', hlook'⟩ := exists_ends (x := analyse [boundCalleeUnit])
    (s := .new .default)
    (g := fun o _ => (o.assignment.at? ⟨"a.c", 2, 6⟩).map (·.map Report.categories))
    (b := some [[.arr]]) (by decide +kernel)
  exact ⟨_, _, place, outcome, s, outcome', s', hclosed, isShallow_of_checkClosed hclosed (by decide),
    hclosed', isShallow_of_checkClosed hclosed' (by decide), hwraps, h, h', hlook, hlook'⟩

end Session

end CheckedPointers
