import CheckedPointers.Proofs.Session.Embedding
import CheckedPointers.Proofs.Session.Matching
import CheckedPointers.Proofs.Session.Rounds

/-!
Sessions to which constraints are added that come to the same. What is recorded in one of them
follows from what is recorded in the other, so both solve alike wherever a name leads there and
back. In which order repairs are made does not matter for that.
-/
namespace CheckedPointers

open Op

variable {ρ σ : Renaming}

namespace Op

variable {α β : Type} {R R' R'' : Session → Session → Prop} {x y z : Op α} {a b : α}
  {s t s' t' : Session}

/-- What ends on both sides ends with the same answer. -/
theorem Matches.of_both_ends (h : Matches R Eq x y) (hst : R s t) (hx : x.Ends s a s')
    (hy : y.Ends t b t') : a = b ∧ R s' t' := by
  obtain ⟨b', t'', hy', hst', rfl⟩ := h.leads.of_ends hst hx
  obtain ⟨rfl, rfl⟩ := hy.unique hy'
  exact ⟨rfl, hst'⟩

/-- One operation in the place of another, and then in other sessions. -/
theorem Matches.trans (h : Matches R Eq x y) (h' : Matches R' Eq y z)
    (hsplit : ∀ {s t}, R'' s t → ∃ w, R s w ∧ R' w t)
    (hjoin : ∀ {s w t}, R s w → R' w t → R'' s t) : Matches R'' Eq x z := by
  intro s t hst
  obtain ⟨w, hsw, hwt⟩ := hsplit hst
  have h := h s w hsw
  have h' := h' w t hwt
  generalize x s = r at h ⊢
  generalize y w = r' at h h'
  generalize z t = r'' at h' ⊢
  cases h with
  | ends hst hab =>
    cases h' with
    | ends hst' hab' => exact .ends (hjoin hst hst') (hab.trans hab')
  | givenUp hst =>
    cases h' with
    | givenUp hst' => exact .givenUp (hjoin hst hst')
  | breaks =>
    cases h' with
    | breaks => exact .breaks

theorem bind_of_ends {f : α → Op β} (h : x.Ends s a t) : (x >>= f) s = f a t := by
  have h : x s = (.ok a, t) := h
  rw [bind_run, h]

end Op

/-! ## Constraints and solutions under other names -/

namespace ConstraintSystem

variable {s t u : ConstraintSystem} {c : Constraint}

theorem satisfies_rename (value : Atom → Category) (c : Constraint) :
    Solution.Satisfies value (c.rename ρ) ↔ Solution.Satisfies (fun a => value (ρ.atom a)) c := by
  cases c <;> rfl

theorem entails_normalized_rename :
    t.Entails (c.normalized.rename ρ) ↔ t.Entails (c.rename ρ) := by
  unfold Entails
  simp only [satisfies_rename, Solution.satisfies_normalized]

def EntailedIn (ρ : Renaming) (s t : ConstraintSystem) : Prop :=
  ∀ c ∈ s.constraints, t.Entails (c.rename ρ)

theorem EntailedIn.refl (s : ConstraintSystem) : s.EntailedIn .id s := fun c hc value hv => by
  rw [Constraint.rename_id]
  exact hv c hc

theorem EntailedIn.grows (h : s.EntailedIn ρ t) (htu : t.Grows u) : s.EntailedIn ρ u :=
  fun c hc => (h c hc).grows htu

/-- What follows here follows there under its other name. -/
theorem EntailedIn.entails (h : s.EntailedIn ρ t) (hc : s.Entails c) : t.Entails (c.rename ρ) :=
  fun value hv => (satisfies_rename value c).2
    (hc _ fun d hd => (satisfies_rename value d).1 (h d hd value hv))

theorem EntailedIn.trans_id (h : s.EntailedIn ρ t) (h' : t.EntailedIn .id u) :
    s.EntailedIn ρ u := fun c hc => by
  have hu := h'.entails (h c hc)
  rwa [Constraint.rename_id] at hu

theorem EntailedIn.id_trans (h : s.EntailedIn .id t) (h' : t.EntailedIn ρ u) :
    s.EntailedIn ρ u := fun c hc => by
  have ht := h c hc
  rw [Constraint.rename_id] at ht
  exact h'.entails ht

/-- Where more follows atoms are no safer. -/
theorem EntailedIn.solve_le (h : s.EntailedIn ρ t) (hs : s.Sound) (ht : t.Sound) (a : Atom) :
    s.solve.category a ≤ t.solve.category (ρ.atom a) :=
  hs.isLeast.2 _ (fun c hc => (satisfies_rename _ c).1 ((h c hc).satisfies ht)) a

end ConstraintSystem

/-- Atoms whose names lead there and back have one category in both solutions. -/
def Solution.Entwined (ρ σ : Renaming) (sol sol' : Solution) : Prop :=
  ∀ a, σ.atom (ρ.atom a) = a → sol'.category (ρ.atom a) = sol.category a

namespace Solution

variable {sol sol' : Solution} {l : List Atom}

/-- The least safe category depends on the categories only. -/
theorem leastSafe_map {g : Atom → Atom} (h : ∀ a ∈ l, sol'.category (g a) = sol.category a) :
    sol'.leastSafe (l.map g) = sol.leastSafe l := by
  cases l with
  | nil => rfl
  | cons a rest =>
    obtain ⟨ha, hrest⟩ := List.forall_mem_cons.1 h
    rw [List.map_cons, leastSafe, leastSafe, ha, List.foldl_map]
    exact congrArg some (List.foldl_ext _ _ _ fun c b hb => by rw [hrest b hb])

theorem anyWild_map {g : Atom → Atom} (h : ∀ a ∈ l, sol'.category (g a) = sol.category a) :
    sol'.anyWild (l.map g) = sol.anyWild l := by
  rw [anyWild, anyWild, Bool.eq_iff_iff]
  simp only [List.any_map, List.any_eq_true, Function.comp_apply]
  exact exists_congr fun a => and_congr_right fun ha => by rw [h a ha]

end Solution

/-! ## Sessions -/

namespace Session

variable {s t s' t' s'' t'' : Session} {c : Constraint} {sol : Solution}

/-- Constraints alone were added to both sessions, and what was recorded in the first one follows in
the second. -/
structure Within (ρ : Renaming) (s t s' t' : Session) : Prop where
  left : s.Records s'
  right : t.Records t'
  entailed : s'.solver.EntailedIn ρ t'.solver

theorem Within.refl (h : s.Records s') : Within .id s s s' s' :=
  ⟨h, h, .refl s'.solver⟩

theorem Within.records (h : Within ρ s t s' t') (ht : t'.Records t'') : Within ρ s t s' t'' :=
  ⟨h.left, h.right.trans ht, h.entailed.grows ht.solver⟩

theorem Within.trans_id (h : Within ρ s t s' t') (h' : Within .id t t t' t'') :
    Within ρ s t s' t'' := ⟨h.left, h'.right, h.entailed.trans_id h'.entailed⟩

theorem Within.id_trans (h : Within .id s s s' s'') (h' : Within ρ s t s'' t') :
    Within ρ s t s' t' := ⟨h.left, h'.right, h.entailed.id_trans h'.entailed⟩

/-- The same is recorded on both sides. -/
theorem Within.add {b b' : Bool} (h : Within ρ s t s' t') (hs : (addConstraint c).Ends s' b s'')
    (ht : (addConstraint (c.rename ρ)).Ends t' b' t'') : Within ρ s t s'' t'' := by
  obtain ⟨hs, hsolver, -⟩ := known_of_addConstraint hs
  obtain ⟨ht, htsolver, -⟩ := known_of_addConstraint ht
  refine ⟨h.left.trans hs, h.right.trans ht, fun d hd => ?_⟩
  rw [hsolver, ConstraintSystem.mem_add_constraints] at hd
  rcases hd with hd | ⟨rfl, -⟩
  · exact (h.entailed d hd).grows ht.solver
  · rw [ConstraintSystem.entails_normalized_rename, htsolver]
    exact ConstraintSystem.entails_add _ _

/-- Constraints alone were added to both sessions, and what they say is the same. -/
structure Attuned (ρ σ : Renaming) (s t s' t' : Session) : Prop where
  forth : Within ρ s t s' t'
  back : Within σ t s t' s'

/-- Constraints on atoms that are named there and back are recorded in both. -/
theorem addConstraint_attuned (hs : c.Known s.solver.cells.size)
    (ht : (c.rename ρ).Known t.solver.cells.size) (hc : (c.rename ρ).rename σ = c) :
    Matches (Attuned ρ σ s t) (fun _ _ => True) (addConstraint c) (addConstraint (c.rename ρ)) := by
  intro s₁ t₁ h
  obtain ⟨b, s₂, hends⟩ := addConstraint_ends (h.forth.left.size.symm ▸ hs)
  obtain ⟨b', t₂, hends'⟩ := addConstraint_ends (h.forth.right.size.symm ▸ ht)
  have hback := h.back.add hends' (hc.symm ▸ hends)
  have hrun : addConstraint c s₁ = (.ok b, s₂) := hends
  have hrun' : addConstraint (c.rename ρ) t₁ = (.ok b', t₂) := hends'
  rw [hrun, hrun']
  exact .ends ⟨h.forth.add hends hends', hback⟩ trivial

/-- Sessions that say the same have solutions that agree where names lead there and back. -/
theorem Attuned.solutions (h : Attuned ρ σ s t s' t') (hs : s.WellFormed) (ht : t.WellFormed) :
    Solution.Entwined ρ σ s'.solver.solve t'.solver.solve := by
  intro a ha
  have hs' := h.forth.left.solver.sound hs.solver
  have ht' := h.forth.right.solver.sound ht.solver
  refine Category.le_antisymm ?_ (h.forth.entailed.solve_le hs' ht' a)
  have hback := h.back.entailed.solve_le ht' hs' (ρ.atom a)
  rwa [ha] at hback

/-! ## Repairs in any order -/

def inTurn : List (Op Bool) → Op Bool
  | [] => return false
  | x :: rest => do
    let first ← x
    let others ← inTurn rest
    return first || others

/-- From all that comes of `s` by adding constraints the repair ends, has nothing left to do
afterwards, and adds no less where more is recorded. -/
structure Steady (s : Session) (x : Op Bool) : Prop where
  ends : ∀ t, s.Records t → ∃ b w, x.Ends t b w ∧ t.Records w ∧ Replays .records x b w
  alike : Matches (Within .id s s) Eq x x

/-- A repair that ends in every session and knows when it is done. -/
theorem Steady.of_repairs {x : Op Bool} {P : Prop} (hs : s.WellFormed)
    (hends : ∀ t, t.WellFormed → Answers sol x t)
    (hdone : ∀ t, t.WellFormed → Repairs sol x t P) (halike : Matches (Within .id s s) Eq x x) :
    Steady s x where
  ends t hst := by
    have ht := hst.creates.wellFormed hs
    obtain ⟨b, w, hx, htw, -⟩ := hends t ht
    exact ⟨b, w, hx, htw, ((hdone t ht).of_ends hx).2.2⟩
  alike := halike

/-- What both repairs were made in has the same, in whichever order they were made. -/
abbrev Level (s t t' : Session) : Prop := Attuned .id .id s s t t'

theorem Level.refl (h : s.Records t) : Level s t t := ⟨.refl h, .refl h⟩

theorem Level.trans {w : Session} (h : Level s t t') (h' : Level s t' w) : Level s t w :=
  ⟨h.forth.trans_id h'.forth, h'.back.trans_id h.back⟩

/-- A steady repair goes the same way from any two sessions that have the same. -/
theorem Steady.level {x : Op Bool} (h : Steady s x) : Matches (Level s) Eq x x := by
  intro t t' ht
  obtain ⟨b, w, hx, -, -⟩ := h.ends t ht.forth.left
  obtain ⟨b', w', hx', -, -⟩ := h.ends t' ht.forth.right
  obtain ⟨rfl, hforth⟩ := h.alike.of_both_ends ht.forth hx hx'
  obtain ⟨-, hback⟩ := h.alike.of_both_ends ht.back hx' hx
  have hrun : x t = (.ok b, w) := hx
  have hrun' : x t' = (.ok b, w') := hx'
  rw [hrun, hrun']
  exact .ends ⟨hforth, hback⟩ rfl

theorem inTurn_level {xs : List (Op Bool)} (h : ∀ x ∈ xs, Steady s x) :
    Matches (Level s) Eq (inTurn xs) (inTurn xs) := by
  induction xs with
  | nil => exact .pure rfl
  | cons x rest ih =>
    obtain ⟨hx, hrest⟩ := List.forall_mem_cons.1 h
    exact hx.level.bind_eq fun first => (ih hrest).bind_eq fun others => .pure rfl

/-- Either of two repairs can be made first: it finds less than when it is made last, and when it is
asked for once more in the end it has nothing left to do. -/
theorem Steady.swap {x y : Op Bool} (hx : Steady s x) (hy : Steady s y) (h : Level s t t') :
    ∃ a b t₁ t₁' w w', x.Ends t a t₁ ∧ y.Ends t₁ b w ∧ y.Ends t' b t₁' ∧ x.Ends t₁' a w' ∧
      Level s w w' := by
  obtain ⟨a, t₁, hx₁, ht₁, hreplay⟩ := hx.ends t h.forth.left
  obtain ⟨b, w, hy₁, hw, -⟩ := hy.ends t₁ (h.forth.left.trans ht₁)
  obtain ⟨b', t₁', hy₁', ht₁', hreplay'⟩ := hy.ends t' h.forth.right
  obtain ⟨a', w', hx₁', hw', -⟩ := hx.ends t₁' (h.forth.right.trans ht₁')
  obtain ⟨rfl, hforth₁⟩ := hx.alike.of_both_ends (h.forth.records ht₁') hx₁ hx₁'
  obtain ⟨rfl, hforth⟩ := hy.alike.of_both_ends hforth₁ hy₁ (hreplay' w' hw')
  obtain ⟨-, hback₁⟩ := hy.alike.of_both_ends (h.back.records ht₁) hy₁' hy₁
  obtain ⟨-, hback⟩ := hx.alike.of_both_ends hback₁ hx₁' (hreplay w hw)
  exact ⟨a, b, t₁, t₁', w, w', hx₁, hy₁, hy₁', hx₁', hforth, hback⟩

/-- Repairs that are made in any order come to the same. -/
theorem inTurn_perm {xs ys : List (Op Bool)} (hperm : xs.Perm ys) (h : ∀ x ∈ xs, Steady s x) :
    Matches (Level s) Eq (inTurn xs) (inTurn ys) := by
  induction hperm with
  | nil => exact .pure rfl
  | cons x _ ih =>
    obtain ⟨hx, hrest⟩ := List.forall_mem_cons.1 h
    exact hx.level.bind_eq fun first => (ih hrest).bind_eq fun others => .pure rfl
  | swap x y rest =>
    obtain ⟨hy, h⟩ := List.forall_mem_cons.1 h
    obtain ⟨hx, hrest⟩ := List.forall_mem_cons.1 h
    intro t t' ht
    obtain ⟨b, a, t₁, t₁', w, w', hy₁, hx₁, hx₁', hy₁', hw⟩ := hy.swap hx ht
    have hothers : Matches (Level s) Eq (do let others ← inTurn rest; return b || (a || others))
        (do let others ← inTurn rest; return a || (b || others)) :=
      (inTurn_level hrest).bind_eq fun others => .pure (Bool.or_left_comm b a others)
    have hleft : inTurn (y :: x :: rest) t =
        (do let others ← inTurn rest; return b || (a || others)) w := by
      simp only [inTurn, bind_assoc, pure_bind]
      rw [bind_of_ends hy₁, bind_of_ends hx₁]
    have hright : inTurn (x :: y :: rest) t' =
        (do let others ← inTurn rest; return a || (b || others)) w' := by
      simp only [inTurn, bind_assoc, pure_bind]
      rw [bind_of_ends hx₁', bind_of_ends hy₁']
    rw [hleft, hright]
    exact hothers w w' hw
  | trans hxs _ ih ih' =>
    exact (ih h).trans (ih' fun x hx => h x (hxs.mem_iff.2 hx))
      (fun {t _} ht => ⟨t, .refl ht.forth.left, ht⟩) .trans

/-- Repairs may be made in another order in the second session. -/
theorem inTurn_reordered {xs ys zs : List (Op Bool)} (hxs : Matches (Attuned ρ σ s t) Eq (inTurn xs)
    (inTurn ys)) (hperm : ys.Perm zs) (hys : ∀ y ∈ ys, Steady t y) :
    Matches (Attuned ρ σ s t) Eq (inTurn xs) (inTurn zs) :=
  hxs.trans (inTurn_perm hperm hys) (fun {_ t'} ht => ⟨t', ht, .refl ht.forth.right⟩)
    fun hst ht => ⟨hst.forth.trans_id ht.forth, ht.back.id_trans hst.back⟩

end Session

end CheckedPointers
