import CheckedPointers.Proofs.Session.Integrity
import CheckedPointers.Session.Bounds

/-!
What bounding and equating variables records. Nothing but the constraints changes, and what was
asked for is recorded and so entailed.
-/
namespace CheckedPointers

open Op

namespace ConstraintSystem

variable {s t : ConstraintSystem} {c : Constraint}

/-- A constraint is recorded, or says nothing. -/
def Says (s : ConstraintSystem) (c : Constraint) : Prop :=
  c.normalized.isTrivial ∨ c.normalized ∈ s.constraints

theorem Says.grows (h : s.Says c) (hg : s.Grows t) : t.Says c := h.imp_right hg.mem

theorem says_add (s : ConstraintSystem) (c : Constraint) : (s.add c).2.Says c := by
  by_cases h : c.normalized.isTrivial
  · exact .inl h
  · exact .inr ((mem_add_constraints s c _).2 (.inr ⟨rfl, h⟩))

theorem Says.entails (h : s.Says c) : s.Entails c := by
  have hold := entails_add s c
  rwa [add_old h] at hold

theorem says_self (s : ConstraintSystem) (a : Atom) : s.Says (.equal a a) :=
  .inl (by simp [Constraint.normalized, Constraint.isTrivial])

theorem Says.symm {a b : Atom} (h : s.Says (.equal a b)) : s.Says (.equal b a) := by
  unfold Says
  rwa [← Constraint.normalized_equal_comm]

/-- A constraint and its normal form say the same. -/
theorem says_normalized : s.Says c.normalized ↔ s.Says c := by
  have hidem : c.normalized.normalized = c.normalized := by
    cases c with
    | equal a b =>
      by_cases h : b < a
      · simp [Constraint.normalized, h, Nat.lt_asymm h]
      · simp [Constraint.normalized, h]
    | atLeast a c => rfl
  unfold Says
  rw [hidem]

end ConstraintSystem

namespace Session

variable {s t : Session}

/-- The session after a constraint was handed to the store. -/
theorem addConstraint_run (c : Constraint) (s : Session) :
    addConstraint c s =
      match (s.solver.add c).1 with
      | .ok isNew => (.ok isNew, { s with solver := (s.solver.add c).2 })
      | .error f => (.error (.fault f), { s with solver := (s.solver.add c).2 }) := by
  rw [addConstraint, bind_run, get_run]
  simp only
  rcases s.solver.add c with ⟨_ | _, _⟩ <;> rfl

/-- A constraint on an atom that is not there is a fault, unless it says nothing new. -/
theorem known_of_addConstraint {c : Constraint} {b : Bool} (h : (addConstraint c).Ends s b t) :
    s.Records t ∧ t.solver = (s.solver.add c).2 ∧ (s.solver.add c).1 = .ok b := by
  unfold Ends at h
  rw [addConstraint_run] at h
  cases hr : (s.solver.add c).1 with
  | error f => rw [hr] at h; cases h
  | ok b' =>
    rw [hr] at h
    cases h
    refine ⟨⟨?_, by simp, rfl⟩, rfl, rfl⟩
    by_cases hold : c.normalized.isTrivial ∨ c.normalized ∈ s.solver.constraints
    · rw [ConstraintSystem.add_old hold]
      exact .refl _
    · by_cases hk : c.Known s.solver.cells.size
      · exact ConstraintSystem.grows_add hk
      · rw [ConstraintSystem.add_fails hold hk] at hr
        cases hr

/-- A constraint on atoms that are there is recorded. -/
theorem addConstraint_ends {c : Constraint} (hk : c.Known s.solver.cells.size) :
    ∃ b t, (addConstraint c).Ends s b t := by
  unfold Ends
  rw [addConstraint_run]
  rcases ConstraintSystem.add_known hk with ⟨h, -⟩ | ⟨h, -⟩ <;> rw [h] <;> exact ⟨_, _, rfl⟩

/-- Recording ends or is a fault; it is never given up. -/
theorem addConstraint_meets_of_ends {c : Constraint} {Q : Bool → Session → Prop}
    (h : ∀ b t, (addConstraint c).Ends s b t → s.Records t ∧ Q b t) :
    Meets .records (addConstraint c) s Q := by
  unfold Ends at h
  unfold Meets
  rw [addConstraint_run] at h ⊢
  cases hr : (s.solver.add c).1 with
  | error f => trivial
  | ok b =>
    rw [hr] at h
    exact h b _ rfl

theorem addConstraint_stated (c : Constraint) (s : Session) :
    Meets .records (addConstraint c) s fun _ t => t.solver.Says c := by
  refine addConstraint_meets_of_ends fun b t hb => ?_
  obtain ⟨hr, ht, -⟩ := known_of_addConstraint hb
  exact ⟨hr, ht ▸ ConstraintSystem.says_add s.solver c⟩

theorem addConstraint_meets (c : Constraint) (s : Session) :
    Meets .records (addConstraint c) s fun _ t => t.solver.Entails c :=
  (addConstraint_stated c s).mono fun _ _ _ h => h.entails

theorem boundAtoms_stated (c : Category) (atoms : List Atom) (s : Session) :
    Meets .records (boundAtoms c atoms) s fun _ t =>
      ∀ a ∈ atoms, t.solver.Says (.atLeast a c) := by
  induction atoms generalizing s with
  | nil => exact Meets.pure (by simp)
  | cons a rest ih =>
    refine Meets.bind (addConstraint_stated _ s) fun _ t _ ha => ?_
    refine Meets.bind (ih t) fun _ u (htu : t.Records u) hrest => Meets.pure ?_
    intro b hb
    rcases List.mem_cons.1 hb with rfl | hb
    · exact ha.grows htu.solver
    · exact hrest b hb

def BoundRecorded (s : Session) (c : Category) (v : VarId) : Prop :=
  ∃ atoms, s.arena.atoms? v = some atoms ∧ ∀ a ∈ atoms, s.solver.Says (.atLeast a c)

theorem BoundRecorded.records {c : Category} {v : VarId} (h : s.BoundRecorded c v)
    (hst : s.Records t) : t.BoundRecorded c v := by
  obtain ⟨atoms, hatoms, ha⟩ := h
  exact ⟨atoms, hst.arena ▸ hatoms, fun a hmem => (ha a hmem).grows hst.solver⟩

def Bounded (s : Session) (c : Category) (v : VarId) : Prop :=
  ∃ atoms, s.arena.atoms? v = some atoms ∧ ∀ a ∈ atoms, s.solver.Entails (.atLeast a c)

theorem Bounded.records {c : Category} {v : VarId} (h : s.Bounded c v) (hst : s.Records t) :
    t.Bounded c v := by
  obtain ⟨atoms, hatoms, ha⟩ := h
  exact ⟨atoms, hst.arena ▸ hatoms, fun a hmem => (ha a hmem).grows hst.solver⟩

theorem BoundRecorded.bounded {c : Category} {v : VarId} (h : s.BoundRecorded c v) :
    s.Bounded c v := h.imp fun _ ⟨hatoms, ha⟩ => ⟨hatoms, fun a hmem => (ha a hmem).entails⟩

theorem boundBelow_stated (v : VarId) (c : Category) (s : Session) :
    Meets .records (boundBelow v c) s fun _ t => t.BoundRecorded c v := by
  refine Meets.bind_get (Meets.bind_known fun atoms hatoms => ?_)
  refine (boundAtoms_stated c atoms s).mono fun _ t (hst : s.Records t) h => ?_
  exact ⟨atoms, hst.arena ▸ hatoms, h⟩

/-- All that the variable owns is bounded in the solution. -/
theorem boundBelow_meets (v : VarId) (c : Category) (s : Session) :
    Meets .records (boundBelow v c) s fun _ t => t.Bounded c v :=
  (boundBelow_stated v c s).mono fun _ _ _ h => h.bounded

/-- All that the members of the set own is bounded. -/
theorem boundSet_stated (set : VarSet) (c : Category) (s : Session) :
    Meets .records (boundSet set c) s fun _ t => ∀ v ∈ set, t.BoundRecorded c v := by
  suffices h : ∀ vs, Meets .records (boundAll c vs) s fun _ t => ∀ v ∈ vs, t.BoundRecorded c v from
    h set.members
  intro vs
  induction vs generalizing s with
  | nil => exact Meets.pure (by simp)
  | cons v rest ih =>
    refine Meets.bind (boundBelow_stated v c s) fun _ t _ hv => ?_
    refine Meets.bind (ih t) fun _ u (htu : t.Records u) hrest => Meets.pure ?_
    intro w hw
    rcases List.mem_cons.1 hw with rfl | hw
    · exact hv.records htu
    · exact hrest w hw

theorem boundSet_meets (set : VarSet) (c : Category) (s : Session) :
    Meets .records (boundSet set c) s fun _ t => ∀ v ∈ set, t.Bounded c v :=
  (boundSet_stated set c s).mono fun _ _ _ h v hv => (h v hv).bounded

def EquationsRecorded (s : Session) (a b : VarId) : Prop :=
  ∃ eqs, s.arena.equations? a b = some eqs ∧ ∀ e ∈ eqs, s.solver.Says (.equal e.1 e.2)

theorem EquationsRecorded.records {a b : VarId} (h : s.EquationsRecorded a b)
    (hst : s.Records t) : t.EquationsRecorded a b := by
  obtain ⟨eqs, heqs, he⟩ := h
  exact ⟨eqs, hst.arena ▸ heqs, fun e hmem => (he e hmem).grows hst.solver⟩

/-- Two variables agree on every pair of atoms that equating them relates. -/
def Equated (s : Session) (a b : VarId) : Prop :=
  ∃ eqs, s.arena.equations? a b = some eqs ∧ ∀ e ∈ eqs, s.solver.Entails (.equal e.1 e.2)

/-- Recorded equations hold in the solution. -/
theorem EquationsRecorded.equated {a b : VarId} (h : s.EquationsRecorded a b) : s.Equated a b :=
  h.imp fun _ ⟨heqs, he⟩ => ⟨heqs, fun e hmem => (he e hmem).entails⟩

theorem Equated.records {a b : VarId} (h : s.Equated a b) (hst : s.Records t) :
    t.Equated a b := by
  obtain ⟨eqs, heqs, he⟩ := h
  exact ⟨eqs, hst.arena ▸ heqs, fun e hmem => (he e hmem).grows hst.solver⟩

theorem equate_stated (a b : VarId) (s : Session) :
    Meets .records (equate a b) s fun _ t => t.EquationsRecorded a b := by
  refine Meets.bind_get (Meets.bind_known fun eqs heqs => ?_)
  refine (Meets.forM (P := fun (e : Atom × Atom) w => w.solver.Says (.equal e.1 e.2))
    (fun e v w (hvw : v.Records w) h => h.grows hvw.solver) fun e _ w _ =>
      Meets.discard (addConstraint_stated _ w)).mono fun _ t (hst : s.Records t) h => ?_
  exact ⟨eqs, hst.arena ▸ heqs, h⟩

/-- Variables that were equated agree in the solution. -/
theorem equate_meets (a b : VarId) (s : Session) :
    Meets .records (equate a b) s fun _ t => t.Equated a b :=
  (equate_stated a b s).mono fun _ _ _ h => h.equated

theorem equateSets_stated (x y : VarSet) (s : Session) :
    Meets .records (equateSets x y) s fun _ t => ∀ a ∈ x, ∀ b ∈ y, t.EquationsRecorded a b :=
  Meets.forM (P := fun a w => ∀ b ∈ y, w.EquationsRecorded a b)
    (fun _ _ _ (htu : Session.Records _ _) h b hb => (h b hb).records htu) fun a _ _ _ =>
      Meets.forM (P := fun b w => w.EquationsRecorded a b)
        (fun _ _ _ (htu : Session.Records _ _) h => h.records htu) fun b _ w _ =>
          equate_stated a b w

def EquatedSets (s : Session) (x y : VarSet) : Prop := ∀ a ∈ x, ∀ b ∈ y, s.Equated a b

/-- Members of sets that were equated agree in the solution. -/
theorem equateSets_meets (x y : VarSet) (s : Session) :
    Meets .records (equateSets x y) s fun _ t => t.EquatedSets x y :=
  (equateSets_stated x y s).mono fun _ _ _ h a ha b hb => (h a ha b hb).equated

end Session

end CheckedPointers
