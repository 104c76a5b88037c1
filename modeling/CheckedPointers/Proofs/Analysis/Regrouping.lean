import CheckedPointers.Proofs.Session.Outcome
import CheckedPointers.Proofs.Session.Skeleton
import CheckedPointers.Proofs.Source.Regrouping

/-!
Blocks mean nothing to the analysis, since it opens them all before it looks at a body.
-/
namespace CheckedPointers

open Op

namespace Session

section Unit

variable {u u' : TranslationUnit} (h : u.Regroups u')
include h

/-- A body in blocks is followed as its statements without them. -/
theorem flowStmts_regrouped (func : DeclId) (sts : List Stmt) :
    flowStmts u' func sts = flowStmts u func sts := by
  induction sts with
  | nil => rfl
  | cons st rest ih =>
    have hst : followStmt u' func st = followStmt u func st :=
      h.reorders.congr (f := (followStmt · func st)) fun u => followStmt_skeleton u func st
    simp only [flowStmts, hst, ih]

/-- Opened blocks are followed alike, so regrouping a body changes nothing. -/
theorem flowDecl_regrouped (id : DeclId) : flowDecl u' id = flowDecl u id := by
  have hinit (init : ExprId) :
      followInitializer u' .declaration id init = followInitializer u .declaration id init :=
    h.reorders.congr (f := (followInitializer · .declaration id init)) fun u =>
      followInitializer_skeleton u id init
  simp only [flowDecl, TranslationUnit.decl, hinit, flowStmts_regrouped h]
  have hd := h.decl? id
  generalize u.decls[id]? = o, u'.decls[id]? = o' at hd
  cases hd with
  | none => rfl
  | some hd =>
    cases hd with
    | refl => rfl
    | @body d _ _ _ body body' hbody =>
      change (do return FlowSummary.add ⟨1, 0, 0⟩ (← flowStmts u id (Stmt.unblocked body'))) =
        (do return FlowSummary.add ⟨1, 0, 0⟩ (← flowStmts u id (Stmt.unblocked body)) : Op _)
      rw [hbody.unblocked_eq]

theorem flow_regrouped : flow u' = flow u := by
  have hdecls (ids : List DeclId) : flowDecls u' ids = flowDecls u ids := by
    induction ids with
    | nil => rfl
    | cons id rest ih => simp only [flowDecls, flowDecl_regrouped h, ih]
  simp only [flow, h.topLevel, hdecls]

end Unit

section Units

variable {units units' : List TranslationUnit}
  (h : List.Forall₂ TranslationUnit.Regroups units units')
include h

theorem indexUnits_regrouped :
    units'.forM (fun u => discard (indexUnit u)) = units.forM fun u => discard (indexUnit u) := by
  induction h with
  | nil => rfl
  | cons hu _ ih => simp only [List.forM, hu.reorders.congr indexUnit_skeleton, ih]

theorem flowUnits_regrouped : flowUnits units' = flowUnits units := by
  induction h with
  | nil => rfl
  | cons hu _ ih =>
    simp only [flowUnits, hu.reorders.congr enter_skeleton, flow_regrouped hu, ih]

end Units

/-- Opening the blocks of a body leaves the statements at its places in source order, each place
once, and what bodies come to does not show how they are grouped: neither declarations nor checks
nor the analysis of a program tell units that differ in blocks. -/
theorem analyse_regrouped {units units' : List TranslationUnit}
    (h : List.Forall₂ TranslationUnit.Regroups units units') :
    (∀ body, Stmt.unblocked body = Stmt.flattenedAll body ∧
      ∃ places : List (List Nat), places.Pairwise (· < ·) ∧
        (∀ place, place ∈ places ↔ ∃ st, Stmt.StandsAt st (.block body) place) ∧
        List.Forall₂ (fun place st => Stmt.StandsAt st (.block body) place) places
          (Stmt.unblocked body)) ∧
    (∀ a b, Stmt.unblocked (a ++ b) = Stmt.unblocked a ++ Stmt.unblocked b) ∧
    units'.map TranslationUnit.declarators = units.map TranslationUnit.declarators ∧
    units'.map TranslationUnit.checkClosed = units.map TranslationUnit.checkClosed ∧
    analyse units' = analyse units := by
  refine ⟨fun body => ⟨Stmt.unblocked_eq_flattenedAll body, Stmt.exists_places body⟩,
    Stmt.unblocked_append, ?_, ?_, ?_⟩
  · rw [← List.forall₂_eq_eq_eq, List.forall₂_map_left_iff, List.forall₂_map_right_iff]
    exact h.flip.imp fun _ _ hu => hu.declarators_eq
  · rw [← List.forall₂_eq_eq_eq, List.forall₂_map_left_iff, List.forall₂_map_right_iff]
    exact h.flip.imp fun _ _ hu => hu.checkClosed_eq
  · simp only [analyse, indexUnits_regrouped h, flowUnits_regrouped h]

/-- A global pointer `p` and the function `void f(void) { p[3]; int *q; q = p; }`, whose statements
are grouped. -/
def groupingUnit (body : List Stmt) : TranslationUnit :=
  { id := 0
    file := "a.c"
    decls := #[
      ⟨"p", ⟨"a.c", 1, 6⟩, false, .var (.pointer .int) true none none⟩,
      ⟨"q", ⟨"a.c", 4, 8⟩, false, .var (.pointer .int) false none none⟩,
      ⟨"f", ⟨"a.c", 2, 6⟩, false,
        .function ⟨.builtin "void", [], false, true⟩ [] true (some body)⟩]
    exprs := #[.declRef 0, .intLiteral 3, .subscript 0 1, .declRef 1, .declRef 0,
      .binary .assign 3 4]
    topLevel := [0, 2] }

/-- The grouped unit and its flat form are analysed alike. -/
theorem analyse_regrouped_groupingUnit :
    let body := [Stmt.expr 2, .decl 1, .expr 5]
    let body' := [Stmt.block [.expr 2, .block [], .block [.decl 1, .expr 5]]]
    List.Forall₂ TranslationUnit.Regroups [groupingUnit body] [groupingUnit body'] ∧
    (groupingUnit body').declarators = .ok [0, 2, 1] ∧
    (groupingUnit body').checkClosed = .ok () ∧
    ∃ outcome s, (analyse [groupingUnit body']).Ends (.new .default) outcome s ∧
      (outcome.assignment.at? ⟨"a.c", 4, 8⟩).map (·.map Report.categories) = some [[.arr]] := by
  intro body body'
  have hbody : Stmt.Regroups body body' := by
    rw [Stmt.regroups_iff]
    simp only [body, body', Stmt.unblocked, List.nil_append, List.append_nil]
  have hunit : (groupingUnit body).Regroups (groupingUnit body') :=
    ⟨rfl, rfl, rfl, rfl, .cons (.refl _) (.cons (.refl _)
      (.cons (.body ⟨"f", ⟨"a.c", 2, 6⟩, false, .enumConstant 0⟩ hbody) .nil))⟩
  obtain ⟨-, -, hdeclarators, hchecks, hanalyse⟩ := analyse_regrouped (.cons hunit .nil)
  rw [List.map_singleton, List.map_singleton, List.singleton_inj] at hdeclarators hchecks
  refine ⟨.cons hunit .nil, ?_, ?_, ?_⟩
  · rw [hdeclarators]
    decide +kernel
  · rw [hchecks]
    decide +kernel
  · rw [hanalyse]
    exact exists_ends (x := analyse [groupingUnit body])
      (s := .new .default)
      (g := fun o _ => (o.assignment.at? ⟨"a.c", 4, 8⟩).map (·.map Report.categories))
      (b := some [[.arr]]) (by decide +kernel)

end Session

end CheckedPointers
