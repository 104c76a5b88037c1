import CheckedPointers.Proofs.Session.Denotation
import CheckedPointers.Proofs.Variable.Coincidence
import CheckedPointers.Session.Flow

/-!
What becomes of a value. Whatever it denotes coincides with the targets that it is assigned to, and
an argument with the slot of its parameter; what cannot be followed further is wild.
-/
namespace CheckedPointers

open Op

namespace TranslationUnit

variable {u : TranslationUnit} {options : Options} {e core : ExprId}

theorem bind_eq_ok {α β : Type} {x : Except Fault α} {f : α → Except Fault β} {b : β} :
    x >>= f = .ok b ↔ ∃ a, x = .ok a ∧ f a = .ok b := by
  cases x with
  | error e => exact ⟨fun h => (nomatch h), fun ⟨_, h, _⟩ => nomatch h⟩
  | ok a => exact ⟨fun h => ⟨a, rfl, h⟩, fun ⟨_, ha, h⟩ => by cases ha; exact h⟩

/-- A call of an allowed external function, below any number of parentheses and conversions. -/
inductive AllowedCall (u : TranslationUnit) (options : Options) : ExprId → Prop where
  | call {e callee : ExprId} {args : List ExprId} {target : DeclId} {d : Decl}
      (hx : u.expr e = .ok (.call callee args)) (htarget : u.namedCallee e = .ok (some target))
      (hd : u.decl target = .ok d) (hfunction : d.isFunction) (hallowed : options.allows d.name) :
      AllowedCall u options e
  | converted {e inner : ExprId} {x : Expr} (hx : u.expr e = .ok x)
      (hinner : x.uncast? = some inner) (h : AllowedCall u options inner) : AllowedCall u options e

/-- What conversions let through holds above them if it holds below. -/
theorem of_unwrapWithin {P : ExprId → Prop} {wraps : Expr → Option ExprId} {n : Nat}
    (h : u.unwrapWithin wraps n e = .ok core) (hcore : P core)
    (hwraps : ∀ x inner, wraps x = some inner → x.uncast? = some inner)
    (hconverted : ∀ {e inner x}, u.expr e = .ok x → x.uncast? = some inner → P inner → P e) :
    P e := by
  induction n generalizing e with
  | zero => cases h
  | succ n ih =>
    rw [unwrapWithin] at h
    obtain ⟨x, hx, h⟩ := bind_eq_ok.1 h
    split at h
    · next inner hinner => exact hconverted hx (hwraps x inner hinner) (ih h)
    · cases h
      exact hcore

theorem of_uncast {P : ExprId → Prop} (h : u.uncast e = .ok core) (hcore : P core)
    (hconverted : ∀ {e inner x}, u.expr e = .ok x → x.uncast? = some inner → P inner → P e) :
    P e := of_unwrapWithin h hcore (fun _ _ h => h) hconverted

theorem AllowedCall.of_unparen (h : u.AllowedCall options core) (hcore : u.unparen e = .ok core) :
    u.AllowedCall options e :=
  of_unwrapWithin hcore h (fun _ _ => Expr.uncast?_of_unparen?) AllowedCall.converted

/-- The check finds allowed calls only. -/
theorem allowedCall_of_isAllowedCall (h : u.isAllowedCall options e = .ok true) :
    u.AllowedCall options e := by
  obtain ⟨call, hcall, h⟩ := bind_eq_ok.1 h
  obtain ⟨x, hx, h⟩ := bind_eq_ok.1 h
  split at h
  · obtain ⟨target, htarget, h⟩ := bind_eq_ok.1 h
    split at h
    · obtain ⟨d, hd, h⟩ := bind_eq_ok.1 h
      obtain ⟨hfunction, hallowed⟩ := Bool.and_eq_true_iff.1 (Except.ok.inj h)
      exact of_uncast hcall (.call hx htarget hd hfunction hallowed) .converted
    · cases h
  · cases h

end TranslationUnit

structure Verdict where
  same : Atom → Atom → Prop
  wild : Atom → Prop

namespace Verdict

structure Implies (v w : Verdict) : Prop where
  same : ∀ a b, v.same a b → w.same a b
  wild : ∀ a, v.wild a → w.wild a

theorem Implies.trans {u v w : Verdict} (h : u.Implies v) (h' : v.Implies w) : u.Implies w :=
  ⟨fun a b hab => h'.same a b (h.same a b hab), fun a ha => h'.wild a (h.wild a ha)⟩

end Verdict

namespace ConstraintSystem

/-- What every solution of the recorded constraints has in common. -/
def verdict (s : ConstraintSystem) : Verdict :=
  ⟨fun a b => s.Entails (.equal a b), fun a => s.Entails (.atLeast a .leastSafe)⟩

theorem Grows.verdict {s t : ConstraintSystem} (h : s.Grows t) : s.verdict.Implies t.verdict :=
  ⟨fun _ _ hab => hab.grows h, fun _ ha => ha.grows h⟩

end ConstraintSystem

namespace Solution

def verdict (sol : Solution) : Verdict :=
  ⟨fun a b => sol.category a = sol.category b, fun a => sol.category a = .wild⟩

theorem equivalence_same (sol : Solution) : Equivalence sol.verdict.same :=
  ⟨fun _ => rfl, Eq.symm, Eq.trans⟩

end Solution

theorem ConstraintSystem.Sound.verdict {s : ConstraintSystem} (hs : s.Sound) :
    s.verdict.Implies s.solve.verdict :=
  ⟨fun _ _ hab => hab.satisfies hs, fun _ ha => Category.le_antisymm (Category.le_wild _)
    (ha.satisfies hs)⟩

namespace Session

variable {u : TranslationUnit} {view : Viewpoint} {v w : Verdict} {s t : Session}

/-! ## Sets of variables -/

def Coincident (v : Verdict) (x y : VarSet) (t : Session) : Prop :=
  ∀ a ∈ x, ∀ b ∈ y, t.arena.Coincide v.same a b

def Wild (v : Verdict) (x : VarSet) (t : Session) : Prop := ∀ a ∈ x, t.arena.All v.wild a

theorem Coincident.extends {x y : VarSet} (h : Coincident v x y s) (hst : s.Extends t)
    (hv : v.Implies w) : Coincident w x y t := fun a ha b hb => (h a ha b hb).imp hst.arena hv.same

theorem Wild.extends {x : VarSet} (h : Wild v x s) (hst : s.Extends t) (hv : v.Implies w) :
    Wild w x t := fun a ha => (h a ha).imp hst.arena hv.wild

theorem EquatedSets.coincident {x y : VarSet} (h : s.EquatedSets x y) :
    Coincident s.solver.verdict x y s := by
  intro a ha b hb
  obtain ⟨eqs, heqs, hsame⟩ := h a ha b hb
  exact Arena.equatesWithin _ heqs hsame

/-- Sets that were equated coincide in every solution. -/
theorem equateSets_visits (x y : VarSet) (s : Session) :
    Meets .visits (equateSets x y) s fun _ t => Coincident t.solver.verdict x y t :=
  (equateSets_meets x y s).to_creates.to_visits.mono fun _ _ _ h => h.coincident

theorem boundSet_visits (x : VarSet) (s : Session) :
    Meets .visits (discard (boundSet x .leastSafe)) s fun _ t => Wild t.solver.verdict x t :=
  Meets.discard (boundSet_meets x .leastSafe s).to_creates.to_visits

/-! ## Assignments -/

/-- A value flows into targets: what it denotes coincides with them, unless it is a call of an
allowed external function. Of an explicit conversion it is the operand that flows, and that is wild
if its declared type is another one. -/
inductive Transfers (u : TranslationUnit) (view : Viewpoint) (v : Verdict) (targets : VarSet)
    (value : ExprId) (t : Session) : Prop where
  | allowed (h : u.AllowedCall t.options value) : Transfers u view v targets value t
  | plain {core : ExprId} {x : Expr} {values : VarSet} (hcore : u.unparen value = .ok core)
      (hx : u.expr core = .ok x) (hplain : ∀ ty operand, x ≠ .cast ty operand)
      (hvalues : Replays .visits (denote u value view) values t)
      (hsame : Coincident v targets values t) : Transfers u view v targets value t
  | converted {core operand : ExprId} {ty : CType} {values : VarSet}
      (hcore : u.unparen value = .ok core) (hx : u.expr core = .ok (.cast ty operand))
      (hvalues : Replays .visits (denote u operand view) values t)
      (hsame : Coincident v targets values t)
      (hwild : ∀ declared, u.staticType? operand = .ok (some declared) → ¬ ty.alike declared →
        Wild v values t) : Transfers u view v targets value t

/-- A value that has flowed stays where it went during the visit. -/
theorem Transfers.visits {targets : VarSet} {value : ExprId}
    (h : Transfers u view v targets value s) (hst : s.Visits t) (hv : v.Implies w) :
    Transfers u view w targets value t := by
  cases h with
  | allowed h => exact .allowed (hst.options ▸ h)
  | plain hcore hx hplain hvalues hsame =>
    exact .plain hcore hx hplain (hvalues.later hst) (hsame.extends hst.toExtends hv)
  | converted hcore hx hvalues hsame hwild =>
    apply Transfers.converted hcore hx (hvalues.later hst) (hsame.extends hst.toExtends hv)
    exact fun declared hd hne => (hwild declared hd hne).extends hst.toExtends hv

/-- What is found out about arrays leaves the tables of the unit alone. -/
theorem setCandidates_meets {o : OpenUnit} (candidates : List (DeclId × List ExprId))
    (ho : s.opened = some o) :
    Meets .visits (setOpen { o with candidates := candidates }) s fun _ _ => True := by
  have hremembers : o.Remembers { o with candidates := candidates } :=
    ⟨rfl, rfl, fun _ _ h => h, fun _ _ h => h⟩
  exact (setOpen_meets ho hremembers (fun _ he => .inl he) fun _ he => .inl he).any

theorem flagArray_meets (u : TranslationUnit) (d : DeclId) (s : Session) :
    Meets .visits (flagArray u d) s fun _ _ => True := by
  refine Meets.bind_current fun o ho => ?_
  unfold OpenUnit.addCandidate
  split
  · exact setCandidates_meets o.candidates ho.1
  · exact setCandidates_meets (o.candidates ++ [(d, [])]) ho.1

theorem addArraySize_meets (u : TranslationUnit) (d : DeclId) (size : ExprId) (s : Session) :
    Meets .visits (addArraySize u d size) s fun _ _ => True := by
  refine Meets.bind_current fun o ho => ?_
  split
  · exact setCandidates_meets _ ho.1
  · exact Meets.bind_lift fun _ _ => Meets.fault

theorem noteAllocation_meets (u : TranslationUnit) (target : DeclId) (value : ExprId)
    (s : Session) : Meets .visits (noteAllocation u target value) s fun _ _ => True := by
  refine Meets.bind_lift fun size _ => ?_
  split
  · exact Meets.bind (flagArray_meets u target s) fun _ t _ _ => addArraySize_meets u target _ t
  · exact Meets.pure trivial

/-- The operand of a conversion reaches the targets, and is wild if its declared type is another
one. -/
theorem flowThroughCast_meets {value core operand : ExprId} {ty : CType} (targets : VarSet)
    (hs : s.WellFormed) (hcore : u.unparen value = .ok core)
    (hx : u.expr core = .ok (.cast ty operand)) :
    Meets .visits (flowThroughCast u view targets ty operand) s fun _ t =>
      Transfers u view t.solver.verdict targets value t := by
  refine Meets.bind_get (Meets.bind_lift fun allowed hallowed => ?_)
  split
  · next hyes =>
    have hcall : u.AllowedCall s.options operand :=
      TranslationUnit.allowedCall_of_isAllowedCall (hyes ▸ hallowed)
    have hcast : u.AllowedCall s.options core := .converted hx rfl hcall
    exact Meets.pure (.allowed (hcast.of_unparen hcore))
  · refine Meets.bind (denote_recalls u operand view hs) fun values t hst hfound => ?_
    refine Meets.bind_lift fun declared hdeclared => ?_
    have hequate : ∀ r, t.Visits r →
        (∀ ty', u.staticType? operand = .ok (some ty') → ¬ ty.alike ty' →
          Wild r.solver.verdict values r) →
        Meets .visits (equateSets targets values) r fun _ z =>
          Transfers u view z.solver.verdict targets value z := by
      intro r htr hwild
      refine (equateSets_visits targets values r).mono fun _ z hrz hsame => ?_
      have hrz : r.Visits z := hrz
      apply Transfers.converted hcore hx (hfound.2.later (htr.trans hrz)) hsame
      exact fun ty' hty hne => (hwild ty' hty hne).extends hrz.toExtends hrz.solver.verdict
    dsimp only
    split
    · next ty' =>
      split
      · refine Meets.bind (boundSet_visits values t) fun _ r htr hwild => ?_
        exact hequate r htr fun _ _ _ => hwild
      · next halike =>
        refine hequate t (.refl t) fun ty'' hty hne => ?_
        obtain rfl := Option.some.inj (Except.ok.inj (hdeclared.symm.trans hty))
        simp only [Bool.not_eq_true', Bool.not_eq_false] at halike
        exact absurd halike hne
    · refine hequate t (.refl t) fun ty' hty _ => ?_
      have hnone := Except.ok.inj (hdeclared.symm.trans hty)
      cases hnone

/-- An allocation is noted before its value flows. -/
theorem flowInto_some (u : TranslationUnit) (view : Viewpoint) (targets : VarSet)
    (target : DeclId) (value : ExprId) :
    flowInto u view targets (some target) value =
      noteAllocation u target value >>= fun _ => flowInto u view targets none value := rfl

/-- A value reaches its targets: a conversion by its operand, an allowed call not at all. -/
theorem flowInto_meets (u : TranslationUnit) (view : Viewpoint) (targets : VarSet)
    (named : Option DeclId) (value : ExprId) (hs : s.WellFormed) :
    Meets .visits (flowInto u view targets named value) s fun _ t =>
      Transfers u view t.solver.verdict targets value t := by
  have hvalue : ∀ t, t.WellFormed →
      Meets .visits (flowInto u view targets none value) t fun _ z =>
        Transfers u view z.solver.verdict targets value z := by
    intro t ht
    refine Meets.bind_lift fun core hcore => Meets.bind_lift fun x hx => ?_
    split
    · exact flowThroughCast_meets targets ht hcore hx
    · next hplain =>
      refine Meets.bind_get (Meets.bind_lift fun allowed hallowed => ?_)
      split
      · next hyes =>
        have hcall : u.AllowedCall t.options core :=
          TranslationUnit.allowedCall_of_isAllowedCall (hyes ▸ hallowed)
        exact Meets.pure (.allowed (hcall.of_unparen hcore))
      · refine Meets.bind (denote_recalls u value view ht) fun values r _ hfound => ?_
        refine (equateSets_visits targets values r).mono fun _ z hrz hsame => ?_
        exact .plain hcore hx hplain (hfound.2.later hrz) hsame
  cases named with
  | none => exact hvalue s hs
  | some target =>
    rw [flowInto_some]
    exact Meets.bind (noteAllocation_meets u target value s) fun _ t hst _ =>
      hvalue t (hst.wellFormed hs)

/-! ## Calls -/

/-- Each argument flows into the slot at its place; one that has no slot is wild. -/
def Passes (u : TranslationUnit) (view : Viewpoint) (v : Verdict) (slots : List VarSet)
    (args : List ExprId) (t : Session) : Prop :=
  ∀ (i : Nat) arg, args[i]? = some arg → ∃ values,
    Replays .visits (denote u arg view) values t ∧
      (∀ slot, slots[i]? = some slot → Coincident v slot values t) ∧
      (slots[i]? = none → Wild v values t)

theorem Passes.visits {slots : List VarSet} {args : List ExprId}
    (h : Passes u view v slots args s) (hst : s.Visits t) (hv : v.Implies w) :
    Passes u view w slots args t := by
  intro i arg harg
  obtain ⟨values, hvalues, hsame, hwild⟩ := h i arg harg
  exact ⟨values, hvalues.later hst, fun slot hslot => (hsame slot hslot).extends hst.toExtends hv,
    fun hnone => (hwild hnone).extends hst.toExtends hv⟩

/-- By induction on arguments and slots: where slots have run out, the rest of the arguments is
wild. -/
theorem passArguments_meets (u : TranslationUnit) (view : Viewpoint) (slots : List VarSet)
    (args : List ExprId) (hs : s.WellFormed) :
    Meets .visits (passArguments u view slots args) s fun _ t =>
      Passes u view t.solver.verdict slots args t := by
  induction args generalizing s slots with
  | nil =>
    rw [passArguments]
    exact Meets.pure fun _ _ harg => nomatch harg
  | cons arg rest ih =>
    rw [passArguments]
    refine Meets.bind (denote_recalls u arg view hs) fun values t hst hfound => ?_
    have ht := hst.wellFormed hs
    cases slots with
    | nil =>
      refine Meets.bind (boundSet_visits values t) fun _ r htr hwild => ?_
      refine (ih [] (htr.wellFormed ht)).mono fun _ z hrz hpass i b hb => ?_
      have hrz : r.Visits z := hrz
      cases i with
      | zero =>
        obtain rfl := Option.some.inj hb
        exact ⟨values, hfound.2.later (htr.trans hrz), fun _ hslot => (nomatch hslot),
          fun _ => hwild.extends hrz.toExtends hrz.solver.verdict⟩
      | succ i => exact hpass i b hb
    | cons slot slots =>
      refine Meets.bind (equateSets_visits slot values t) fun _ r htr hsame => ?_
      refine (ih slots (htr.wellFormed ht)).mono fun _ z hrz hpass i b hb => ?_
      have hrz : r.Visits z := hrz
      cases i with
      | zero =>
        obtain rfl := Option.some.inj hb
        refine ⟨values, hfound.2.later (htr.trans hrz), fun y hy => ?_, fun hnone => nomatch hnone⟩
        obtain rfl := Option.some.inj hy
        exact hsame.extends hrz.toExtends hrz.solver.verdict
      | succ i => exact hpass i b hb

/-- The callee of a call denotes the same ever after. -/
theorem calleeVariables_recalls (u : TranslationUnit) (view : Viewpoint) (call callee : ExprId)
    (hs : s.WellFormed) : Recalls .visits (calleeVariables u view call callee) s Holds := by
  refine Recalls.bind_lift fun target _ => ?_
  split
  · refine Recalls.bind_lift fun d _ => ?_
    split
    · exact denoteDecl_recalls u _ .declaration hs
    · exact Recalls.unresolved
  · exact denote_recalls u callee view hs

/-- The arguments of a call are passed to the last signature among those that its callee denotes,
unless it calls an allowed external function. -/
inductive PassesCall (u : TranslationUnit) (view : Viewpoint) (v : Verdict) (call callee : ExprId)
    (args : List ExprId) (t : Session) : Prop where
  | allowed (h : u.AllowedCall t.options call) : PassesCall u view v call callee args t
  | passed {candidates : VarSet}
      (hcallee : Replays .visits (calleeVariables u view call callee) candidates t)
      (hholds : Holds candidates t)
      (hargs : ∀ f, (candidates.members.filterMap t.arena.reachableFunction?).getLast? = some f →
        Passes u view v f.params args t) : PassesCall u view v call callee args t

/-- Arguments stay passed. -/
theorem PassesCall.visits {call callee : ExprId} {args : List ExprId}
    (h : PassesCall u view v call callee args s) (hs : s.WellFormed) (hst : s.Visits t)
    (hv : v.Implies w) : PassesCall u view w call callee args t := by
  cases h with
  | allowed h => exact .allowed (hst.options ▸ h)
  | passed hcallee hholds hargs =>
    apply PassesCall.passed (hcallee.later hst) (hholds.extends hst.toExtends)
    intro f hf
    rw [reachableFunctions_eq hs hholds hst.toExtends] at hf
    exact (hargs f hf).visits hst hv

/-- The arguments of a call reach the slots of its last signature. -/
theorem followCall_meets (u : TranslationUnit) (view : Viewpoint) (call callee : ExprId)
    (args : List ExprId) (hs : s.WellFormed) :
    Meets .visits (followCall u view call callee args) s fun _ t =>
      PassesCall u view t.solver.verdict call callee args t := by
  refine Meets.bind_get (Meets.bind_lift fun allowed hallowed => ?_)
  split
  · next hyes =>
    exact Meets.pure (.allowed (TranslationUnit.allowedCall_of_isAllowedCall (hyes ▸ hallowed)))
  · refine Meets.bind (calleeVariables_recalls u view call callee hs)
      fun candidates t hst ⟨hholds, hcallee⟩ => ?_
    have ht := hst.wellFormed hs
    refine Meets.bind_get ?_
    dsimp only
    split
    · next f hf =>
      refine (passArguments_meets u view f.params args ht).mono fun _ z htz hpass => ?_
      have htz : t.Visits z := htz
      apply PassesCall.passed (hcallee.later htz) (hholds.extends htz.toExtends)
      intro g hg
      rw [reachableFunctions_eq ht hholds htz.toExtends] at hg
      obtain rfl := Option.some.inj (hf.symm.trans hg)
      exact hpass
    · next hnone =>
      refine Meets.pure (.passed hcallee hholds fun f hf => ?_)
      rw [hnone] at hf
      cases hf

end Session

end CheckedPointers
