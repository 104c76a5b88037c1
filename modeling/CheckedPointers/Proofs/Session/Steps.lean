import CheckedPointers.Analysis
import CheckedPointers.Proofs.Session.Flow

/-!
The visit of a unit as a list of attempts, one after another. Each is made where the one before it
ended, whether that one was given up or not.
-/
namespace CheckedPointers

open Op Session

inductive FlowStep where
  /-- An expression statement of a body. -/
  | expr (e : ExprId)
  /-- A value returned from a body. -/
  | ret (func : DeclId) (value : ExprId)
  /-- An initializer, at file scope or in a body. -/
  | init (view : Viewpoint) (var : DeclId) (value : ExprId)
  deriving DecidableEq

namespace FlowStep

def root : FlowStep → ExprId
  | expr e => e
  | ret _ value => value
  | init _ _ value => value

def view : FlowStep → Viewpoint
  | expr _ => .body
  | ret _ _ => .body
  | init view _ _ => view

def run (u : TranslationUnit) : FlowStep → Op PUnit
  | expr e => follow u .body e
  | ret func value => followReturn u func value
  | init view var value => followInitializer u view var value

/-- The value that an attempt is about has reached what it is meant for. -/
def Delivers (u : TranslationUnit) (v : Verdict) (t : Session) : FlowStep → Prop
  | expr _ => True
  | ret func value => ∃ targets, Replays .visits (declaredReturns u func) targets t ∧
      Transfers u .body v targets value t
  | init view var value => ∃ targets, Replays .visits (denoteDecl u var view) targets t ∧
      Transfers u view v targets value t

theorem Delivers.visits {u : TranslationUnit} {v w : Verdict} {s t : Session} {step : FlowStep}
    (h : step.Delivers u v s) (hst : s.Visits t) (hv : v.Implies w) : step.Delivers u w t := by
  cases step with
  | expr _ => trivial
  | ret _ _ | init _ _ _ =>
    obtain ⟨targets, htargets, hflows⟩ := h
    exact ⟨targets, htargets.later hst, hflows.visits hst hv⟩

/-- An attempt that is not given up delivers its value, and it has followed every node of it. -/
theorem run_follows (u : TranslationUnit) (step : FlowStep) {s : Session} (hs : s.WellFormed) :
    Meets .visits (step.run u) s fun _ t =>
      step.Delivers u t.solver.verdict t ∧ FollowedBelow u step.view step.root t := by
  cases step with
  | expr e => exact (follow_meets u .body e hs).mono fun _ _ _ h => ⟨trivial, h⟩
  | ret func value => exact followReturn_meets u func value hs
  | init view var value => exact followInitializer_meets u view var value hs

/-- An attempt that is not given up leaves no subscript in its expression without bounds. -/
theorem run_meets (u : TranslationUnit) (step : FlowStep) {s : Session} (hs : s.WellFormed) :
    Meets .visits (step.run u) s fun _ t => SubscriptsBounded u step.view step.root t :=
  (step.run_follows u hs).mono fun _ _ _ h => h.2.subscriptsBounded

end FlowStep

namespace TranslationUnit

def stmtSteps (u : TranslationUnit) (func : DeclId) : Stmt → Except Fault (List FlowStep)
  | .expr e => return [.expr e]
  | .ret (some value) => return [.ret func value]
  | .ret none | .block _ => return []
  | .decl d => do
    match (← u.decl d).init? with
    | some init => return [.init .body d init]
    | none => return []

def stmtsSteps (u : TranslationUnit) (func : DeclId) : List Stmt → Except Fault (List FlowStep)
  | [] => return []
  | st :: rest => return (← u.stmtSteps func st) ++ (← u.stmtsSteps func rest)

def declSteps (u : TranslationUnit) (id : DeclId) : Except Fault (List FlowStep) := do
  let d ← u.decl id
  match d.init?, d.body? with
  | some init, _ => return [.init .declaration id init]
  | none, some body => u.stmtsSteps id (Stmt.unblocked body)
  | none, none => return []

def declsSteps (u : TranslationUnit) : List DeclId → Except Fault (List FlowStep)
  | [] => return []
  | id :: rest => return (← u.declSteps id) ++ (← u.declsSteps rest)

/-- Everything that the visit of the unit attempts, in order. -/
def steps (u : TranslationUnit) : Except Fault (List FlowStep) := u.declsSteps u.topLevel

end TranslationUnit

namespace Session

variable {s t w : Session}

def attemptAll (u : TranslationUnit) (steps : List FlowStep) : Op PUnit :=
  steps.forM fun step => discard (attempt (step.run u))

theorem attemptAll_nil (u : TranslationUnit) : (attemptAll u []).Ends s ⟨⟩ t ↔ s = t := by
  show (pure ⟨⟩ : Op PUnit).Ends s ⟨⟩ t ↔ s = t
  simp

/-- Of several attempts the first one goes first, whether it ends or is given up. -/
theorem attemptAll_cons (u : TranslationUnit) (step : FlowStep) (rest : List FlowStep) :
    (attemptAll u (step :: rest)).Ends s ⟨⟩ t ↔
      ∃ b w, (attempt (step.run u)).Ends s b w ∧ (attemptAll u rest).Ends w ⟨⟩ t := by
  show (discard (attempt (step.run u)) >>= fun _ => attemptAll u rest).Ends s ⟨⟩ t ↔ _
  simp only [ends_bind, ends_discard]
  constructor
  · rintro ⟨_, w, ⟨b, hb⟩, h⟩
    exact ⟨b, w, hb, h⟩
  · rintro ⟨b, w, hb, h⟩
    exact ⟨⟨⟩, w, ⟨b, hb⟩, h⟩

/-- Attempts can be cut in two anywhere. -/
theorem attemptAll_append (u : TranslationUnit) (pre post : List FlowStep) :
    (attemptAll u (pre ++ post)).Ends s ⟨⟩ t ↔
      ∃ w, (attemptAll u pre).Ends s ⟨⟩ w ∧ (attemptAll u post).Ends w ⟨⟩ t := by
  induction pre generalizing s with
  | nil => simp [attemptAll_nil]
  | cons step rest ih =>
    rw [List.cons_append, attemptAll_cons]
    simp only [ih, attemptAll_cons]
    exact ⟨fun ⟨b, w, hb, z, hz, h⟩ => ⟨z, ⟨b, w, hb, hz⟩, h⟩,
      fun ⟨z, ⟨b, w, hb, hz⟩, h⟩ => ⟨b, w, hb, z, hz, h⟩⟩

theorem attemptAll_singleton (u : TranslationUnit) (step : FlowStep) :
    (attemptAll u [step]).Ends s ⟨⟩ t ↔ ∃ b, (attempt (step.run u)).Ends s b t := by
  simp only [attemptAll_cons, attemptAll_nil]
  exact ⟨fun ⟨b, _, h, ht⟩ => ⟨b, ht ▸ h⟩, fun ⟨b, h⟩ => ⟨b, t, h, rfl⟩⟩

theorem ends_countStatement {x : Op PUnit} {f : FlowSummary}
    (h : (countStatement x).Ends s f t) : ∃ b, (attempt x).Ends s b t := by
  obtain ⟨b, w, hb, h⟩ := ends_bind.1 h
  refine ⟨b, ?_⟩
  split at h <;> · obtain ⟨-, rfl⟩ := ends_pure.1 h; exact hb

/-- A statement is what it attempts. -/
theorem ends_followStmt {u : TranslationUnit} {func : DeclId} {st : Stmt} {b : Bool}
    (h : (attempt (followStmt u func st)).Ends s b t) :
    ∃ steps, u.stmtSteps func st = .ok steps ∧ (attemptAll u steps).Ends s ⟨⟩ t := by
  have nothing : (attempt (pure ⟨⟩)).Ends s b t → (attemptAll u []).Ends s ⟨⟩ t := by
    intro h
    rcases ends_attempt.1 h with ⟨-, h⟩ | ⟨-, e, h⟩
    · exact (attemptAll_nil u).2 (ends_pure.1 h).2
    · cases h
  cases st with
  | expr e => exact ⟨_, rfl, (attemptAll_singleton u (.expr e)).2 ⟨b, h⟩⟩
  | ret value =>
    cases value with
    | some value => exact ⟨_, rfl, (attemptAll_singleton u (.ret func value)).2 ⟨b, h⟩⟩
    | none => exact ⟨_, rfl, nothing h⟩
  | block _ => exact ⟨_, rfl, nothing h⟩
  | decl d =>
    cases hd : u.decl d with
    | error f =>
      have hfault : followStmt u func (.decl d) = fault f := by rw [followStmt, hd, lift_error_bind]
      rw [hfault] at h
      rcases ends_attempt.1 h with ⟨-, h⟩ | ⟨-, e, h⟩
      · exact absurd h not_ends_fault
      · cases h
    | ok decl =>
      rw [followStmt, hd, lift_ok_bind] at h
      cases hinit : decl.init? with
      | some init =>
        simp only [hinit] at h
        exact ⟨_, TranslationUnit.bind_eq_ok.2 ⟨decl, hd, by rw [hinit]; rfl⟩,
          (attemptAll_singleton u (.init .body d init)).2 ⟨b, h⟩⟩
      | none =>
        simp only [hinit] at h
        exact ⟨_, TranslationUnit.bind_eq_ok.2 ⟨decl, hd, by rw [hinit]; rfl⟩, nothing h⟩

/-- The statements of a body attempt their steps in order. -/
theorem ends_flowStmts {u : TranslationUnit} {func : DeclId} {sts : List Stmt} {f : FlowSummary}
    (h : (flowStmts u func sts).Ends s f t) :
    ∃ steps, u.stmtsSteps func sts = .ok steps ∧ (attemptAll u steps).Ends s ⟨⟩ t := by
  induction sts generalizing s f with
  | nil => exact ⟨[], rfl, (attemptAll_nil u).2 (ends_pure.1 h).2⟩
  | cons st rest ih =>
    obtain ⟨f₁, w, hfirst, h⟩ := ends_bind.1 h
    obtain ⟨f₂, w', hrest, h⟩ := ends_bind.1 h
    obtain ⟨-, rfl⟩ := ends_pure.1 h
    obtain ⟨b, hb⟩ := ends_countStatement hfirst
    obtain ⟨steps₁, h₁, hs₁⟩ := ends_followStmt hb
    obtain ⟨steps₂, h₂, hs₂⟩ := ih hrest
    refine ⟨steps₁ ++ steps₂, ?_, (attemptAll_append u _ _).2 ⟨w, hs₁, hs₂⟩⟩
    rw [TranslationUnit.stmtsSteps, h₁, h₂]
    rfl

/-- A declaration at file scope attempts the steps of its initializer or of its body. -/
theorem ends_flowDecl {u : TranslationUnit} {id : DeclId} {f : FlowSummary}
    (h : (flowDecl u id).Ends s f t) :
    ∃ steps, u.declSteps id = .ok steps ∧ (attemptAll u steps).Ends s ⟨⟩ t := by
  obtain ⟨d, w, hlift, h⟩ := ends_bind.1 h
  obtain ⟨hd, rfl⟩ := ends_lift.1 hlift
  split at h
  · next init hinit =>
    obtain ⟨b, hb⟩ := ends_countStatement h
    exact ⟨_, TranslationUnit.bind_eq_ok.2 ⟨d, hd, by simp only [hinit]; rfl⟩,
      (attemptAll_singleton u (.init .declaration id init)).2 ⟨b, hb⟩⟩
  · next body hinit hbody =>
    obtain ⟨f', w, hstmts, h⟩ := ends_bind.1 h
    obtain ⟨-, rfl⟩ := ends_pure.1 h
    obtain ⟨steps, hsteps, hattempts⟩ := ends_flowStmts hstmts
    refine ⟨steps, TranslationUnit.bind_eq_ok.2 ⟨d, hd, ?_⟩, hattempts⟩
    simp only [hinit, hbody, hsteps]
  · next hinit hbody =>
    exact ⟨[], TranslationUnit.bind_eq_ok.2 ⟨d, hd, by simp only [hinit, hbody]; rfl⟩,
      (attemptAll_nil u).2 (ends_pure.1 h).2⟩

/-- The declarations at file scope attempt their steps one after another. -/
theorem ends_flowDecls {u : TranslationUnit} {ids : List DeclId} {f : FlowSummary}
    (h : (flowDecls u ids).Ends s f t) :
    ∃ steps, u.declsSteps ids = .ok steps ∧ (attemptAll u steps).Ends s ⟨⟩ t := by
  induction ids generalizing s f with
  | nil => exact ⟨[], rfl, (attemptAll_nil u).2 (ends_pure.1 h).2⟩
  | cons id rest ih =>
    obtain ⟨f₁, w, hfirst, h⟩ := ends_bind.1 h
    obtain ⟨f₂, w', hrest, h⟩ := ends_bind.1 h
    obtain ⟨-, rfl⟩ := ends_pure.1 h
    obtain ⟨steps₁, h₁, hs₁⟩ := ends_flowDecl hfirst
    obtain ⟨steps₂, h₂, hs₂⟩ := ih hrest
    refine ⟨steps₁ ++ steps₂, ?_, (attemptAll_append u _ _).2 ⟨w, hs₁, hs₂⟩⟩
    rw [TranslationUnit.declsSteps, h₁, h₂]
    rfl

/-- A visit that ends has attempted its steps one after another. -/
theorem ends_flow {u : TranslationUnit} {f : FlowSummary} (h : (flow u).Ends s f t) :
    ∃ steps, u.steps = .ok steps ∧ (attemptAll u steps).Ends s ⟨⟩ t := ends_flowDecls h

theorem attempt_meets (u : TranslationUnit) (step : FlowStep) (hs : s.WellFormed) :
    Meets .visits (attempt (step.run u)) s fun _ _ => True :=
  Meets.attempt (step.run_meets u hs).any fun _ _ => trivial

theorem attemptAll_meets (u : TranslationUnit) (steps : List FlowStep) (hs : s.WellFormed) :
    Meets .visits (attemptAll u steps) s fun _ _ => True := by
  refine (Meets.forM (P := fun _ _ => True) (fun _ _ _ _ h => h) fun step _ t hst => ?_).any
  have hst : s.Visits t := hst
  exact Meets.discard (attempt_meets u step (hst.wellFormed hs))

end Session

end CheckedPointers
