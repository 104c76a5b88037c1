import CheckedPointers.Proofs.Session.Transfer

/-!
Following values. A statement leaves every table of the program as it is, and if it is not given
up, its values have reached their targets and whatever its subscripts are applied to has bounds.
-/
namespace CheckedPointers

open Op

namespace TranslationUnit

/-- The literal zero below any number of parentheses and conversions. -/
inductive IsLiteralZero (u : TranslationUnit) : ExprId → Prop where
  | literal {e : ExprId} (h : u.expr e = .ok (.intLiteral 0)) : IsLiteralZero u e
  | converted {e inner : ExprId} {x : Expr} (hx : u.expr e = .ok x)
      (hinner : x.uncast? = some inner) (h : IsLiteralZero u inner) : IsLiteralZero u e

/-- An expression is part of another one: the other itself, or part of one of its operands. -/
inductive Inside (u : TranslationUnit) (node : ExprId) : ExprId → Prop where
  | refl : Inside u node node
  | operand {e o : ExprId} {x : Expr} (hx : u.expr e = .ok x) (ho : o ∈ x.operands)
      (h : Inside u node o) : Inside u node e

theorem isLiteralZero_of_isZero {u : TranslationUnit} {e : ExprId} (h : u.isZero e = .ok true) :
    u.IsLiteralZero e := by
  obtain ⟨core, hcore, h⟩ := bind_eq_ok.1 h
  obtain ⟨x, hx, h⟩ := bind_eq_ok.1 h
  split at h
  · exact of_uncast hcore (.literal hx) .converted
  · cases h

end TranslationUnit

namespace Session

variable {s t : Session}

/-! ## Subscripts -/

/-- In what a base denotes, the outermost level of every pointer is bounded. -/
def HasBounds (u : TranslationUnit) (view : Viewpoint) (base : ExprId) (s : Session) : Prop :=
  ∃ set, Replays .visits (denote u base view) set s ∧ Holds set s ∧
    ∀ v ∈ set, ∀ p a, s.arena.pointer? v = some p → p.atoms.head? = some a →
      s.solver.Entails (.atLeast a .arr)

theorem HasBounds.visits {u : TranslationUnit} {view : Viewpoint} {base : ExprId}
    (h : HasBounds u view base s) (hst : s.Visits t) : HasBounds u view base t := by
  obtain ⟨set, hdenote, hset, hbound⟩ := h
  refine ⟨set, hdenote.later hst, hset.extends hst.toExtends, fun v hv p a hp ha => ?_⟩
  rw [hst.arena.pointer?_eq (hset v hv)] at hp
  exact (hbound v hv p a hp ha).grows hst.solver

/-- The outermost level of all that the base denotes is bounded at least by `arr`. -/
theorem needBounds_meets (u : TranslationUnit) (view : Viewpoint) (base : ExprId)
    (hs : s.WellFormed) :
    Meets .visits (needBounds u view base) s fun _ t => HasBounds u view base t := by
  refine Meets.bind (Meets.frame (denote_recalls u base view hs)) fun set t _ hfound => ?_
  obtain ⟨_, hset, hdenote⟩ := hfound
  refine Meets.mono (Meets.frame (Meets.forM
    (P := fun v z => ∀ p a, t.arena.pointer? v = some p → p.atoms.head? = some a →
      z.solver.Entails (.atLeast a .arr))
    (fun v w z hwz h p a hp ha => (h p a hp ha).grows hwz.solver)
    fun v hv w htw => Meets.bind_get ?_)) fun _ w _ hbounds => ?_
  · have hsame := htw.arena.pointer?_eq (hset v hv)
    split
    · next b hb =>
      have hadd : Meets .records (discard (addConstraint (.atLeast b .arr))) w fun _ z =>
          z.solver.Entails (.atLeast b .arr) := Meets.discard (addConstraint_meets _ w)
      refine hadd.to_creates.to_visits.mono fun _ z _ hz p a hp ha => ?_
      rw [hsame, hp, Option.bind_some, ha] at hb
      exact Option.some.inj hb ▸ hz
    · next hnone =>
      refine Meets.pure fun p a hp ha => ?_
      rw [hsame, hp, Option.bind_some, ha] at hnone
      cases hnone
  · obtain ⟨htw, hall⟩ := hbounds
    refine ⟨set, hdenote.later htw, hset.extends htw.toExtends, fun v hv p a hp ha => ?_⟩
    rw [htw.arena.pointer?_eq (hset v hv)] at hp
    exact hall v hv p a hp ha

/-- The base of every subscript inside an expression has bounds, unless the index is zero. -/
def SubscriptsBounded (u : TranslationUnit) (view : Viewpoint) (e : ExprId) (s : Session) : Prop :=
  ∀ node, u.Inside node e → ∀ base index, u.expr node = .ok (.subscript base index) →
    ¬ u.IsLiteralZero index → HasBounds u view base s

/-! ## Expressions -/

def TransfersAt (u : TranslationUnit) (view : Viewpoint) (v : Verdict) (node : ExprId)
    (t : Session) : Expr → Prop
  | .binary .assign lhs rhs => ∃ targets, Replays .visits (denote u lhs view) targets t ∧
      Transfers u view v targets rhs t
  | .call callee args => PassesCall u view v node callee args t
  | _ => True

/-- What has reached its targets stays there during the visit. -/
theorem TransfersAt.visits {u : TranslationUnit} {view : Viewpoint} {v w : Verdict}
    {node : ExprId} {x : Expr} (h : TransfersAt u view v node s x) (hs : s.WellFormed)
    (hst : s.Visits t) (hv : v.Implies w) : TransfersAt u view w node t x := by
  cases x with
  | binary op lhs rhs =>
    cases op with
    | assign =>
      obtain ⟨targets, htargets, hflows⟩ := h
      exact ⟨targets, htargets.later hst, hflows.visits hst hv⟩
    | _ => trivial
  | call callee args => exact PassesCall.visits h hs hst hv
  | _ => trivial

structure Followed (u : TranslationUnit) (view : Viewpoint) (node : ExprId) (t : Session) :
    Prop where
  transfers : ∀ x, u.expr node = .ok x → TransfersAt u view t.solver.verdict node t x
  bounds : ∀ base index, u.expr node = .ok (.subscript base index) → ¬ u.IsLiteralZero index →
    HasBounds u view base t

theorem Followed.visits {u : TranslationUnit} {view : Viewpoint} {node : ExprId}
    (h : Followed u view node s) (hs : s.WellFormed) (hst : s.Visits t) :
    Followed u view node t where
  transfers x hx := (h.transfers x hx).visits hs hst hst.solver.verdict
  bounds base index hx hzero := (h.bounds base index hx hzero).visits hst

theorem Followed.of_subscript {u : TranslationUnit} {view : Viewpoint} {node base index : ExprId}
    (hx : u.expr node = .ok (.subscript base index))
    (h : ¬ u.IsLiteralZero index → HasBounds u view base t) : Followed u view node t where
  transfers x hx' := by
    obtain rfl := Except.ok.inj (hx.symm.trans hx')
    trivial
  bounds base' index' hx' := by
    cases Except.ok.inj (hx.symm.trans hx')
    exact h

theorem Followed.of_transfers {u : TranslationUnit} {view : Viewpoint} {node : ExprId} {x : Expr}
    (hx : u.expr node = .ok x) (hne : ∀ base index, x ≠ .subscript base index)
    (h : TransfersAt u view t.solver.verdict node t x) : Followed u view node t where
  transfers x' hx' := by
    obtain rfl := Except.ok.inj (hx.symm.trans hx')
    exact h
  bounds base index hx' := absurd (Except.ok.inj (hx.symm.trans hx')) (hne base index)

/-- What is recorded at a node says what its kind demands. -/
theorem followNode_meets (u : TranslationUnit) (view : Viewpoint) {e : ExprId} {x : Expr}
    (hx : u.expr e = .ok x) (hs : s.WellFormed) :
    Meets .visits (followNode u view e x) s fun _ t => Followed u view e t := by
  have other : ∀ {y : Op PUnit},
      Meets .visits y s (fun _ t => TransfersAt u view t.solver.verdict e t x) →
      (∀ base index, x ≠ .subscript base index) →
      Meets .visits y s fun _ t => Followed u view e t :=
    fun hy hne => hy.mono fun _ _ _ ht => .of_transfers hx hne ht
  cases x with
  | subscript base index =>
    refine Meets.bind_lift fun zero hzero => ?_
    split
    · exact (needBounds_meets u view base hs).mono fun _ _ _ h => .of_subscript hx fun _ => h
    · next hyes =>
      refine Meets.pure (.of_subscript hx fun hlit => ?_)
      simp only [Bool.not_eq_true', Bool.not_eq_false] at hyes
      rw [hyes] at hzero
      exact absurd (TranslationUnit.isLiteralZero_of_isZero hzero) hlit
  | binary op lhs rhs =>
    refine other ?_ fun _ _ hx => nomatch hx
    cases op with
    | assign =>
      refine Meets.bind (denote_recalls u lhs view hs) fun targets t hst ⟨_, htargets⟩ => ?_
      refine Meets.bind_lift fun named _ => ?_
      refine (flowInto_meets u view targets named rhs (hst.wellFormed hs)).mono
        fun _ z htz hflows => ?_
      exact ⟨targets, htargets.later htz, hflows⟩
    | _ => exact Meets.pure trivial
  | call callee args =>
    exact other (followCall_meets u view e callee args hs) fun _ _ hx => nomatch hx
  | stringLiteral value =>
    have hdenote : Meets .visits (denote u e view) s fun _ _ => True :=
      (denote_recalls u e view hs).any
    exact other (Meets.discard hdenote) fun _ _ hx => nomatch hx
  | _ => exact other (Meets.pure trivial) fun _ _ hx => nomatch hx

def FollowedBelow (u : TranslationUnit) (view : Viewpoint) (e : ExprId) (t : Session) : Prop :=
  ∀ node, u.Inside node e → Followed u view node t

theorem FollowedBelow.subscriptsBounded {u : TranslationUnit} {view : Viewpoint} {e : ExprId}
    (h : FollowedBelow u view e s) : SubscriptsBounded u view e s :=
  fun node hnode => (h node hnode).bounds

theorem FollowedBelow.visits {u : TranslationUnit} {view : Viewpoint} {e : ExprId}
    (h : FollowedBelow u view e s) (hs : s.WellFormed) (hst : s.Visits t) :
    FollowedBelow u view e t := fun node hnode => (h node hnode).visits hs hst

/-- The node itself has been followed and, by the induction, so has every operand. -/
theorem followWithin_meets (u : TranslationUnit) (view : Viewpoint) (n : Nat) (e : ExprId)
    (hs : s.WellFormed) :
    Meets .visits (followWithin u view n e) s fun _ t => FollowedBelow u view e t := by
  induction n generalizing s e with
  | zero => exact Meets.unresolved
  | succ n ih =>
    refine Meets.bind_lift fun x hx => ?_
    refine Meets.bind (followNode_meets u view hx hs) fun _ t hst hroot => ?_
    have ht := hst.wellFormed hs
    have hrest : Meets .visits (x.operands.forM (followWithin u view n)) t fun _ w =>
        ∀ o ∈ x.operands, w.WellFormed ∧ FollowedBelow u view o w := by
      refine Meets.forM (fun o w z hwz h => ⟨hwz.wellFormed h.1, h.2.visits h.1 hwz⟩)
        fun o _ w htw => ?_
      have hw := htw.wellFormed ht
      exact (ih o hw).mono fun _ z hwz h => ⟨hwz.wellFormed hw, h⟩
    refine hrest.frame.mono fun _ w _ ⟨htw, hall⟩ node hinside => ?_
    cases hinside with
    | refl => exact hroot.visits ht htw
    | operand hx' ho h =>
      obtain rfl := Except.ok.inj (hx.symm.trans hx')
      exact (hall _ ho).2 node h

theorem follow_meets (u : TranslationUnit) (view : Viewpoint) (e : ExprId) (hs : s.WellFormed) :
    Meets .visits (follow u view e) s fun _ t => FollowedBelow u view e t :=
  followWithin_meets u view _ e hs

/-! ## Statements -/

/-- A value flows into its targets, and then it is followed itself. -/
theorem flowAndFollow_meets (u : TranslationUnit) (view : Viewpoint) (targets : VarSet)
    (named : Option DeclId) (value : ExprId) (hs : s.WellFormed) :
    Meets .visits (do
      flowInto u view targets named value
      follow u view value) s fun _ t =>
        Transfers u view t.solver.verdict targets value t ∧ FollowedBelow u view value t := by
  refine Meets.bind (flowInto_meets u view targets named value hs) fun _ t hst hflows => ?_
  refine (follow_meets u view value (hst.wellFormed hs)).mono fun _ w htw hfollowed => ?_
  have htw : t.Visits w := htw
  exact ⟨hflows.visits htw htw.solver.verdict, hfollowed⟩

theorem followInitializer_meets (u : TranslationUnit) (view : Viewpoint) (var : DeclId)
    (init : ExprId) (hs : s.WellFormed) :
    Meets .visits (followInitializer u view var init) s fun _ t =>
      (∃ targets, Replays .visits (denoteDecl u var view) targets t ∧
        Transfers u view t.solver.verdict targets init t) ∧ FollowedBelow u view init t := by
  refine Meets.bind (denoteDecl_recalls u var view hs) fun targets t hst ⟨_, htargets⟩ => ?_
  refine (flowAndFollow_meets u view targets (some var) init (hst.wellFormed hs)).mono
    fun _ w htw ⟨hflows, hfollowed⟩ => ?_
  exact ⟨⟨targets, htargets.later htw, hflows⟩, hfollowed⟩

theorem declaredReturns_recalls (u : TranslationUnit) (func : DeclId) (hs : s.WellFormed) :
    Recalls .visits (declaredReturns u func) s Holds := by
  refine Recalls.bind (storedFor_recalls u func hs) fun stored t hst hstored => ?_
  have ht := hst.wellFormed hs
  apply Recalls.bind_get_pure
  · intro w htw
    rw [List.filterMap_congr fun v hv => htw.arena.function?_eq (hstored v hv)]
  · intro v hv
    obtain ⟨f, hf, hmem⟩ := List.mem_flatMap.1 ((VarSet.mem_ofList _ _).1 hv)
    obtain ⟨w, -, hw⟩ := List.mem_filterMap.1 hf
    exact (ht.arena.slot_lt hw List.mem_cons_self hmem).2

theorem followReturn_meets (u : TranslationUnit) (func : DeclId) (value : ExprId)
    (hs : s.WellFormed) :
    Meets .visits (followReturn u func value) s fun _ t =>
      (∃ targets, Replays .visits (declaredReturns u func) targets t ∧
        Transfers u .body t.solver.verdict targets value t) ∧ FollowedBelow u .body value t := by
  refine Meets.bind (declaredReturns_recalls u func hs) fun targets t hst ⟨_, htargets⟩ => ?_
  refine (flowAndFollow_meets u .body targets none value (hst.wellFormed hs)).mono
    fun _ w htw ⟨hflows, hfollowed⟩ => ?_
  exact ⟨⟨targets, htargets.later htw, hflows⟩, hfollowed⟩

end Session

end CheckedPointers
