import CheckedPointers.Proofs.Source.Reordering

/-!
Blocks only group. What a body comes to is the statements in it in source order, and units that
differ in the blocks of their bodies declare the same and are closed or not alike.
-/
namespace CheckedPointers

namespace Stmt

/-! ## Flattening -/

mutual

def flattened : Stmt → List Stmt
  | block stmts => flattenedAll stmts
  | s => [s]

def flattenedAll : List Stmt → List Stmt
  | [] => []
  | s :: rest => s.flattened ++ flattenedAll rest

end

variable {a b : List Stmt}

theorem flattened_of_ne_block {s : Stmt} (hs : ∀ inner, s ≠ block inner) : s.flattened = [s] := by
  cases s with
  | block inner => exact absurd rfl (hs inner)
  | expr _ | ret _ | decl _ => rfl

theorem flattenedAll_append (a b : List Stmt) :
    flattenedAll (a ++ b) = flattenedAll a ++ flattenedAll b := by
  induction a with
  | nil => rfl
  | cons s a ih => simp only [List.cons_append, flattenedAll, ih, List.append_assoc]

/-- To open the first block in place, over and over, is to flatten. -/
theorem unblocked_eq_flattenedAll (ss : List Stmt) : unblocked ss = flattenedAll ss := by
  induction ss using unblocked.induct with
  | case1 => simp only [unblocked, flattenedAll]
  | case2 stmts rest ih => rw [unblocked, ih, flattenedAll_append, flattenedAll, flattened]
  | case3 s rest hs ih =>
    rw [unblocked, ih, flattenedAll, flattened_of_ne_block hs, List.singleton_append]
    exact hs

theorem unblocked_append (a b : List Stmt) : unblocked (a ++ b) = unblocked a ++ unblocked b := by
  simp only [unblocked_eq_flattenedAll, flattenedAll_append]

/-! ## Places -/

/-- A statement other than a block stands in another statement: the place is the position in each
block on the way to it. -/
inductive StandsAt (st : Stmt) : Stmt → List Nat → Prop where
  | self (h : ∀ inner, st ≠ block inner) : StandsAt st st []
  | inside {inner : List Stmt} {i : Nat} {s : Stmt} {place : List Nat} (hi : inner[i]? = some s)
    (h : StandsAt st s place) : StandsAt st (block inner) (i :: place)

mutual

def places : Stmt → List (List Nat)
  | block stmts => placesFrom 0 stmts
  | _ => [[]]

def placesFrom (i : Nat) : List Stmt → List (List Nat)
  | [] => []
  | s :: rest => s.places.map (i :: ·) ++ placesFrom (i + 1) rest

end

theorem places_of_ne_block {s : Stmt} (hs : ∀ inner, s ≠ block inner) : s.places = [[]] := by
  cases s with
  | block inner => exact absurd rfl (hs inner)
  | expr _ | ret _ | decl _ => rfl

theorem exists_of_mem_placesFrom {i : Nat} {ss : List Stmt} {place : List Nat}
    (h : place ∈ placesFrom i ss) :
    ∃ j s inner, ss[j]? = some s ∧ inner ∈ s.places ∧ place = (i + j) :: inner := by
  induction ss generalizing i with
  | nil => cases h
  | cons s rest ih =>
    rw [placesFrom, List.mem_append, List.mem_map] at h
    obtain ⟨inner, hinner, rfl⟩ | h := h
    · exact ⟨0, s, inner, rfl, hinner, rfl⟩
    · obtain ⟨j, t, inner, hj, hinner, rfl⟩ := ih h
      exact ⟨j + 1, t, inner, hj, hinner, by rw [Nat.add_right_comm, Nat.add_assoc]⟩

theorem mem_placesFrom {i j : Nat} {ss : List Stmt} {s : Stmt} {inner : List Nat}
    (hj : ss[j]? = some s) (h : inner ∈ s.places) : (i + j) :: inner ∈ placesFrom i ss := by
  induction ss generalizing i j with
  | nil => cases hj
  | cons t rest ih =>
    rw [placesFrom, List.mem_append]
    cases j with
    | zero =>
      obtain rfl := Option.some.inj hj
      exact .inl (List.mem_map_of_mem h)
    | succ j =>
      rw [← Nat.succ_add_eq_add_succ]
      exact .inr (ih hj)

theorem StandsAt.mem_places {st s : Stmt} {place : List Nat} (h : StandsAt st s place) :
    place ∈ s.places := by
  induction h with
  | self h => simp only [places_of_ne_block h, List.mem_singleton]
  | @inside inner i _ place hi _ ih =>
    have hmem := mem_placesFrom (i := 0) hi ih
    rwa [Nat.zero_add] at hmem

mutual

/-- Places come in source order. -/
theorem pairwise_places : (s : Stmt) → s.places.Pairwise (· < ·)
  | block stmts => pairwise_placesFrom 0 stmts
  | expr _ | ret _ | decl _ => List.pairwise_singleton _ _

theorem pairwise_placesFrom (i : Nat) : (ss : List Stmt) → (placesFrom i ss).Pairwise (· < ·)
  | [] => .nil
  | s :: rest => by
    rw [placesFrom, List.pairwise_append]
    refine ⟨?_, pairwise_placesFrom (i + 1) rest, ?_⟩
    · exact (pairwise_places s).map _ fun _ _ h => List.Lex.cons h
    · rintro _ h _ hlater
      obtain ⟨inner, -, rfl⟩ := List.mem_map.1 h
      obtain ⟨j, _, _, -, -, rfl⟩ := exists_of_mem_placesFrom hlater
      exact List.Lex.rel (by omega)

end

mutual

/-- At each place stands the statement that flattening puts there. -/
theorem places_flattened : (s : Stmt) → List.Forall₂ (fun place st => StandsAt st s place) s.places
    s.flattened
  | block stmts => by
    apply (placesFrom_flattened 0 stmts).imp
    rintro _ st ⟨j, s, inner, hj, h, rfl⟩
    rw [Nat.zero_add]
    exact .inside hj h
  | expr e => .cons (.self nofun) .nil
  | ret value => .cons (.self nofun) .nil
  | decl d => .cons (.self nofun) .nil

theorem placesFrom_flattened (i : Nat) : (ss : List Stmt) → List.Forall₂ (fun place st =>
    ∃ j s inner, ss[j]? = some s ∧ StandsAt st s inner ∧ place = (i + j) :: inner)
    (placesFrom i ss) (flattenedAll ss)
  | [] => .nil
  | s :: rest => by
    rw [placesFrom, flattenedAll]
    apply List.rel_append
    · rw [List.forall₂_map_left_iff]
      exact (places_flattened s).imp fun inner st h => ⟨0, s, inner, rfl, h, rfl⟩
    · apply (placesFrom_flattened (i + 1) rest).imp
      rintro _ st ⟨j, t, inner, hj, h, rfl⟩
      exact ⟨j + 1, t, inner, hj, h, by rw [Nat.add_right_comm, Nat.add_assoc]⟩

end

/-- Opening the blocks of a body leaves the statements at its places, each place once and in source
order. -/
theorem exists_places (ss : List Stmt) :
    ∃ places : List (List Nat), places.Pairwise (· < ·) ∧
      (∀ place, place ∈ places ↔ ∃ st, StandsAt st (block ss) place) ∧
      List.Forall₂ (fun place st => StandsAt st (block ss) place) places (unblocked ss) := by
  have hstands := places_flattened (block ss)
  refine ⟨(block ss).places, pairwise_places _, fun place => ⟨fun h => ?_, ?_⟩, ?_⟩
  · obtain ⟨i, hi, rfl⟩ := List.getElem_of_mem h
    exact ⟨_, hstands.get hi (hstands.length_eq ▸ hi)⟩
  · exact fun ⟨st, hst⟩ => hst.mem_places
  · rw [unblocked_eq_flattenedAll]
    exact hstands

/-! ## Regrouping -/

/-- Two bodies differ in blocks: statements that follow each other were put in a block or taken out
of one, at any depth and any number of times. -/
inductive Regroups : List Stmt → List Stmt → Prop where
  | refl (a : List Stmt) : Regroups a a
  | symm {a b : List Stmt} (h : Regroups a b) : Regroups b a
  | trans {a b c : List Stmt} (h : Regroups a b) (h' : Regroups b c) : Regroups a c
  | opened (before inner after : List Stmt) :
    Regroups (before ++ block inner :: after) (before ++ inner ++ after)
  | inside (before after : List Stmt) {inner inner' : List Stmt} (h : Regroups inner inner') :
    Regroups (before ++ block inner :: after) (before ++ block inner' :: after)

/-- Regrouped bodies have the same statements once their blocks are opened. -/
theorem Regroups.unblocked_eq (h : Regroups a b) : unblocked a = unblocked b := by
  induction h with
  | refl => rfl
  | symm _ ih => exact ih.symm
  | trans _ _ ih ih' => exact ih.trans ih'
  | opened before inner after =>
    rw [List.append_assoc, unblocked_append, unblocked_append, unblocked]
  | inside before after _ ih =>
    rw [unblocked_append, unblocked_append, unblocked, unblocked, unblocked_append,
      unblocked_append, ih]

theorem Regroups.cons (s : Stmt) (h : Regroups a b) : Regroups (s :: a) (s :: b) := by
  induction h with
  | refl a => exact .refl _
  | symm _ ih => exact ih.symm
  | trans _ _ ih ih' => exact ih.trans ih'
  | opened before inner after => exact .opened (s :: before) inner after
  | inside before after h => exact .inside (s :: before) after h

/-- A body is regrouped by opening its blocks. -/
theorem regroups_unblocked (a : List Stmt) : Regroups a (unblocked a) := by
  induction a using unblocked.induct with
  | case1 =>
    rw [unblocked]
    exact .refl []
  | case2 stmts rest ih =>
    rw [unblocked]
    exact (Regroups.opened [] stmts rest).trans ih
  | case3 s rest hs ih =>
    rw [unblocked]
    · exact ih.cons s
    · exact hs

/-- Nothing is lost: bodies of the same statements in the same order differ in blocks alone. -/
theorem regroups_iff : Regroups a b ↔ unblocked a = unblocked b := by
  refine ⟨Regroups.unblocked_eq, fun h => ?_⟩
  have hb := (regroups_unblocked b).symm
  rw [← h] at hb
  exact (regroups_unblocked a).trans hb

theorem Regroups.reorders (h : Regroups a b) : Reorders a b := by
  constructor
  · rw [h.unblocked_eq]
  · rw [h.unblocked_eq]

end Stmt

inductive Decl.Regroups : Decl → Decl → Prop where
  | refl (d : Decl) : Regroups d d
  | body (d : Decl) {signature : Signature} {params : List DeclId} {isGlobal : Bool}
      {body body' : List Stmt} (h : Stmt.Regroups body body') :
      Regroups { d with kind := .function signature params isGlobal (some body) }
        { d with kind := .function signature params isGlobal (some body') }

structure TranslationUnit.Regroups (u u' : TranslationUnit) : Prop where
  id : u'.id = u.id
  file : u'.file = u.file
  exprs : u'.exprs = u.exprs
  topLevel : u'.topLevel = u.topLevel
  decls : List.Forall₂ Decl.Regroups u.decls.toList u'.decls.toList

namespace Decl

variable {d d' : Decl}

theorem Regroups.reorders (h : d.Regroups d') : d.Reorders d' := by
  cases h with
  | refl => exact .refl d
  | body d h => exact .body d h.reorders

theorem Regroups.unblocked_eq (h : d.Regroups d') : d'.unblocked = d.unblocked := by
  cases h with
  | refl => rfl
  | body d h => exact h.unblocked_eq.symm

theorem Regroups.references_eq (h : d.Regroups d') : d'.references = d.references := by
  cases h with
  | refl => rfl
  | body d h =>
    unfold references
    rw [(Regroups.body d h).unblocked_eq]
    rfl

end Decl

namespace TranslationUnit

variable {u u' : TranslationUnit}

theorem Regroups.reorders (h : u.Regroups u') : u.Reorders u' where
  id := h.id
  file := h.file
  exprs := h.exprs
  topLevel := h.topLevel
  decls := h.decls.imp fun _ _ hd => hd.reorders

/-- The same declarations are there, with the same statements in their bodies. -/
theorem Regroups.decl? (h : u.Regroups u') (id : DeclId) :
    Option.Rel Decl.Regroups u.decls[id]? u'.decls[id]? := by
  have hlen : u.decls.size = u'.decls.size := h.decls.length_eq
  by_cases hid : id < u.decls.size
  · have hid' : id < u'.decls.size := hlen ▸ hid
    rw [Array.getElem?_eq_getElem hid, Array.getElem?_eq_getElem hid']
    exact .some (h.decls.get hid hid')
  · have hid' := Nat.le_of_not_lt hid
    rw [Array.getElem?_eq_none hid', Array.getElem?_eq_none (hlen ▸ hid')]
    exact .none

theorem Regroups.declarators_eq (h : u.Regroups u') : u'.declarators = u.declarators :=
  h.reorders.congr declarators_skeleton

/-! ## The check -/

section Check

variable (hdecls : u'.decls.size = u.decls.size) (hexprs : u'.exprs.size = u.exprs.size)
include hdecls hexprs

/-- A reference is held against the number of declarations and expressions. -/
theorem checkReference_congr : u'.checkReference = u.checkReference := by
  funext r
  cases r <;> simp only [checkReference, hdecls, hexprs]

theorem checkOperands_congr (parent : ExprId) (used os : List ExprId) :
    u'.checkOperands parent used os = u.checkOperands parent used os := by
  induction os generalizing used with
  | nil => rfl
  | cons o rest ih => simp only [checkOperands, checkReference_congr hdecls hexprs, ih]

theorem checkExprs_congr (parent : ExprId) (used : List ExprId) (xs : List Expr) :
    u'.checkExprs parent used xs = u.checkExprs parent used xs := by
  induction xs generalizing parent used with
  | nil => rfl
  | cons x rest ih =>
    simp only [checkExprs, checkReference_congr hdecls hexprs, checkOperands_congr hdecls hexprs,
      ih]

end Check

/-- The check reads statements without their blocks. -/
theorem Regroups.checkClosed_eq (h : u.Regroups u') : u'.checkClosed = u.checkClosed := by
  have hdecls : u'.decls.size = u.decls.size := h.decls.length_eq.symm
  have hexprs : u'.exprs.size = u.exprs.size := by rw [h.exprs]
  have hreferences : u'.decls.toList.map Decl.references = u.decls.toList.map Decl.references := by
    rw [← List.forall₂_eq_eq_eq, List.forall₂_map_left_iff, List.forall₂_map_right_iff]
    exact h.decls.flip.imp fun _ _ hd => hd.references_eq
  have hforM (ds : List Decl) (check : Reference → Except Defect Unit) :
      ds.forM (fun d => d.references.forM check) =
        (ds.map Decl.references).forM fun refs => refs.forM check := by
    induction ds with
    | nil => rfl
    | cons d rest ih => simp only [List.map_cons, List.forM, ih]
  unfold checkClosed
  rw [h.topLevel, h.exprs, hforM, hforM, hreferences, checkReference_congr hdecls hexprs]
  simp only [checkExprs_congr hdecls hexprs]

end TranslationUnit

end CheckedPointers
