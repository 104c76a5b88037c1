import CheckedPointers.Proofs.Session.Flow
import CheckedPointers.Proofs.Source.Closed
import Mathlib.Data.List.Nodup
import Mathlib.Data.List.Perm.Basic

/-!
The walk through an expression. In a closed unit no expression is an operand twice, so expressions
form a forest, and a walk from any of them enters no node a second time.
-/
namespace CheckedPointers

open Op

namespace TranslationUnit

variable {u : TranslationUnit} {a b node e o : ExprId} {x : Expr}

/-! ## The forest of expressions -/

/-- Operands that pass the check are all different, and none was used before. -/
theorem nodup_of_checkExprs {parent : ExprId} {used : List ExprId} {xs : List Expr}
    (h : u.checkExprs parent used xs = .ok ()) :
    (xs.flatMap Expr.operands).Nodup ∧ ∀ o ∈ xs.flatMap Expr.operands, o ∉ used := by
  induction xs generalizing parent used with
  | nil => simp
  | cons y rest ih =>
    obtain ⟨-, used', hoperands, hchecked⟩ := checkExprs_cons h
    obtain ⟨-, hnodup, hfresh, hmem⟩ := of_checkOperands hoperands
    obtain ⟨hrest, hrestFresh⟩ := ih hchecked
    rw [List.flatMap_cons]
    refine ⟨List.nodup_append.2 ⟨hnodup, hrest, ?_⟩, fun c hc => ?_⟩
    · rintro c hc _ hc' rfl
      exact hrestFresh c hc' ((hmem c).2 (.inl hc))
    · rcases List.mem_append.1 hc with hc | hc
      · exact hfresh c hc
      · exact fun hused => hrestFresh c hc ((hmem c).2 (.inr hused))

def IsOperand (u : TranslationUnit) (o e : ExprId) : Prop := ∃ x, u.expr e = .ok x ∧ o ∈ x.operands

/-- Operands precede the expressions that use them, none is used twice by one expression, and none
by two. -/
structure Forest (u : TranslationUnit) : Prop where
  lt : ∀ o e, u.IsOperand o e → o < e
  nodup : ∀ e x, u.expr e = .ok x → x.operands.Nodup
  unique : ∀ o e e', u.IsOperand o e → u.IsOperand o e' → e = e'

/-- A unit that passes the check is a forest. -/
theorem forest_of_checkClosed (h : u.checkClosed = .ok ()) : u.Forest := by
  have hclosed := closed_of_checkClosed h
  obtain ⟨hnodup, hdisjoint⟩ := List.nodup_flatMap.1 (nodup_of_checkExprs (of_checkClosed h).2.2).1
  have hlookup : ∀ {e x}, u.expr e = .ok x → u.exprs.toList[e]? = some x := fun hx => by
    rwa [Array.getElem?_toList, ← expr_eq_ok]
  refine ⟨?_, fun e x hx => hnodup x (List.mem_of_getElem? (hlookup hx)), ?_⟩
  · rintro o e ⟨x, hx, ho⟩
    exact hclosed.operands e x hx o ho
  · rintro o e e' ⟨x, hx, ho⟩ ⟨x', hx', ho'⟩
    obtain ⟨hlt, hx⟩ := List.getElem?_eq_some_iff.1 (hlookup hx)
    obtain ⟨hlt', hx'⟩ := List.getElem?_eq_some_iff.1 (hlookup hx')
    rw [List.pairwise_iff_getElem] at hdisjoint
    rcases Nat.lt_trichotomy e e' with hee | hee | hee
    · exact absurd (hx' ▸ ho') (hdisjoint e e' hlt hlt' hee (hx ▸ ho))
    · exact hee
    · exact absurd (hx ▸ ho) (hdisjoint e' e hlt' hlt hee (hx' ▸ ho'))

theorem Inside.le (hu : u.Forest) (h : u.Inside node e) : node ≤ e := by
  induction h with
  | refl => exact Nat.le_refl _
  | operand hx ho _ ih => exact Nat.le_of_lt (Nat.lt_of_le_of_lt ih (hu.lt _ _ ⟨_, hx, ho⟩))

/-- What an operand is inside of, other than itself, its expression is inside of too. -/
theorem Inside.of_operand (hu : u.Forest) (ho : u.IsOperand o e) (h : u.Inside o b) :
    o = b ∨ u.Inside e b := by
  induction h with
  | refl => exact .inl rfl
  | operand hx ho' _ ih =>
    right
    rcases ih with rfl | hinside
    · rw [hu.unique _ _ _ ho ⟨_, hx, ho'⟩]
      exact .refl
    · exact .operand hx ho' hinside

/-- Of two expressions around one node, one is inside the other. -/
theorem Inside.nested (hu : u.Forest) (ha : u.Inside node a) (hb : u.Inside node b) :
    u.Inside a b ∨ u.Inside b a := by
  induction ha with
  | refl => exact .inl hb
  | operand hx ho _ ih =>
    rcases ih with hinside | hinside
    · rcases hinside.of_operand hu ⟨_, hx, ho⟩ with rfl | hinside
      · exact .inr (.operand hx ho .refl)
      · exact .inl hinside
    · exact .inr (.operand hx ho hinside)

/-- Two operands of one expression have no node in common. -/
theorem Forest.apart (hu : u.Forest) (ha : u.IsOperand a e) (hb : u.IsOperand b e)
    (hna : u.Inside node a) (hnb : u.Inside node b) : a = b := by
  -- an operand around the other one would have to be around their expression
  have hnot : ∀ {c d}, u.IsOperand c e → u.IsOperand d e → u.Inside c d → c = d := by
    intro c d hc hd h
    rcases h.of_operand hu hc with h | h
    · exact h
    · exact absurd (hu.lt d e hd) (Nat.not_lt.2 (h.le hu))
  rcases hna.nested hu hnb with h | h
  · exact hnot ha hb h
  · exact (hnot hb ha h).symm

/-! ## The walk -/

/-- The nodes that a walk from an expression enters, in order, each with the depth that is left
there. With none left an expression is entered, but not looked at. -/
def route (u : TranslationUnit) : Nat → ExprId → List (Nat × ExprId)
  | 0, e => [(0, e)]
  | n + 1, e => (n + 1, e) ::
    match u.exprs[e]? with
    | some x => x.operands.flatMap (u.route n)
    | none => []

/-- A route stays inside of the expression that it starts from. -/
theorem inside_of_mem_route {n : Nat} {p : Nat × ExprId} (h : p ∈ u.route n e) :
    u.Inside p.2 e := by
  induction n generalizing e with
  | zero =>
    rw [route, List.mem_singleton] at h
    exact h ▸ .refl
  | succ n ih =>
    rw [route, List.mem_cons] at h
    rcases h with rfl | h
    · exact .refl
    · cases hx : u.exprs[e]? with
      | none => simp [hx] at h
      | some x =>
        rw [hx] at h
        obtain ⟨o, ho, h⟩ := List.mem_flatMap.1 h
        exact .operand (expr_eq_ok.2 hx) ho (ih h)

/-- A walk enters no node twice. -/
theorem Forest.nodup_route (hu : u.Forest) (n : Nat) (e : ExprId) :
    ((u.route n e).map Prod.snd).Nodup := by
  have hinside : ∀ {m c d}, d ∈ (u.route m c).map Prod.snd → u.Inside d c := by
    intro m c d hd
    obtain ⟨p, hp, rfl⟩ := List.mem_map.1 hd
    exact inside_of_mem_route hp
  induction n generalizing e with
  | zero => simp [route]
  | succ n ih =>
    rw [route]
    cases hx : u.exprs[e]? with
    | none => simp
    | some x =>
      have hop : ∀ o ∈ x.operands, u.IsOperand o e := fun o ho => ⟨x, expr_eq_ok.2 hx, ho⟩
      rw [List.map_cons, List.nodup_cons, List.map_flatMap]
      constructor
      · intro he
        obtain ⟨o, ho, he⟩ := List.mem_flatMap.1 he
        exact absurd ((hinside he).le hu) (Nat.not_le.2 (hu.lt o e (hop o ho)))
      · refine List.nodup_flatMap.2 ⟨fun o _ => ih o, ?_⟩
        refine (hu.nodup e x (expr_eq_ok.2 hx)).pairwise_of_forall_ne ?_
        intro o ho o' ho' hne node hnode hnode'
        exact hne (hu.apart (hop o ho) (hop o' ho') (hinside hnode) (hinside hnode'))

end TranslationUnit

namespace Session

variable {u : TranslationUnit}

def visitNode (u : TranslationUnit) (view : Viewpoint) : Nat × ExprId → Op PUnit
  | (0, e) => Op.unresolved (.tooDeep e)
  | (_ + 1, e) => do followNode u view e (← u.expr e)

theorem forM_flatMap {α β : Type} (f : α → List β) (g : β → Op PUnit) (l : List α) :
    (l.flatMap f).forM g = l.forM fun a => (f a).forM g := by
  simp only [List.forM_eq_forM]
  induction l with
  | nil => rfl
  | cons a rest ih => rw [List.flatMap_cons, List.forM_append, List.forM_cons, ih]

/-- Following an expression is to visit the nodes on its route one after another. -/
theorem followWithin_eq (u : TranslationUnit) (view : Viewpoint) (n : Nat) (e : ExprId) :
    followWithin u view n e = (u.route n e).forM (visitNode u view) := by
  induction n generalizing e with
  | zero => simp [followWithin, TranslationUnit.route, visitNode]
  | succ n ih =>
    rw [followWithin, TranslationUnit.route]
    change _ = (visitNode u view (n + 1, e) >>= fun _ => List.forM _ (visitNode u view))
    rw [visitNode]
    cases hx : u.exprs[e]? with
    | none =>
      have hexpr : u.expr e = .error .unknownId := by simp [TranslationUnit.expr, hx]
      rw [hexpr]
      rfl
    | some x =>
      rw [TranslationUnit.expr_eq_ok.2 hx, lift_ok_bind, lift_ok_bind, forM_flatMap]
      rw [funext ih]

end Session

end CheckedPointers
