import CheckedPointers.Analysis
import CheckedPointers.Proofs.Session.Attuned
import CheckedPointers.Proofs.Session.Entwined

/-!
Repair and reports of sessions that stand in each other. If the tables of one session hold what
those of the other do, then as long as what is added to them comes to the same, every round of
repair adds the same to both, the reports agree, and so do the numbers of rounds.
-/
namespace CheckedPointers

open Op

variable {ρ σ : Renaming}

namespace Session

variable {s t s' t' : Session} {c : Constraint} {v w : VarId} {sol sol' : Solution}

/-- Functions with the same slots correspond. -/
theorem FunctionVariable.corresponds_self (f : FunctionVariable) : f.Corresponds Eq f :=
  ⟨List.forall₂_refl _, List.forall₂_same.2 fun x _ => List.forall₂_refl x.members, rfl, rfl⟩

/-! ## Repair where more is recorded -/

/-- A constraint that is recorded in one is no news in the other. -/
theorem addConstraint_within (hs : c.Known s.solver.cells.size) :
    Matches (Within .id s s) (fun _ _ => True) (addConstraint c) (addConstraint c) := by
  intro s₁ t₁ h
  obtain ⟨b, s₂, hends⟩ := addConstraint_ends (h.left.size.symm ▸ hs)
  obtain ⟨b', t₂, hends'⟩ := addConstraint_ends (h.right.size.symm ▸ hs)
  have hadded := h.add hends (c.rename_id.symm ▸ hends')
  have hrun : addConstraint c s₁ = (.ok b, s₂) := hends
  have hrun' : addConstraint c t₁ = (.ok b', t₂) := hends'
  rw [hrun, hrun']
  exact .ends hadded trivial

theorem Within.arena (h : Within .id s s s' t') : t'.arena = s'.arena :=
  h.right.arena.trans h.left.arena.symm

/-- Raising adds the same constraint in whatever has more constraints already. -/
theorem raise_within (hs : s.WellFormed) (sol : Solution) (v : VarId) (c : Category) :
    Matches (Within .id s s) Eq (raise sol v c) (raise sol v c) := by
  apply Matches.bind_get
  intro s' t' hst
  rw [hst.arena]
  cases hp : s'.arena.pointer? v with
  | none => exact .pure rfl
  | some p =>
    refine (Matches.forM_eq fun a ha => ?_).bind_eq fun _ => .pure rfl
    exact (addConstraint_within (c := .atLeast a c)
      (hs.arena.atom_lt (hst.left.arena ▸ hp) ha)).discard

theorem raisesAlike_within (hs : s.WellFormed) (sol : Solution) :
    RaisesAlike (Within .id s s) Eq sol sol where
  functions := by
    rintro s' t' v _ hst rfl
    rw [hst.arena]
    cases s'.arena.function? v with
    | none => exact .none
    | some f => exact .some (FunctionVariable.corresponds_self f)
  same hv hv' := hv ▸ hv' ▸ Iff.rfl
  leastSafeLevel? hst hv := by rw [hv, hst.arena]
  hasWildLevel hst hv := by rw [hv, hst.arena]
  raise c hv := hv ▸ raise_within hs sol _ c

/-! ## Repair as a list of repairs -/

def repairOne (sol : Solution) (definition declaration : VarId) : Op Bool :=
  if declaration = definition then return false else repairDeclaration sol definition declaration

def repairKey (sol : Solution) (e : FunctionKey × VarSet) : Op Bool := do
  let s ← get
  match s.arena.leastSafe? sol e.2 with
  | some d => repairAll sol d (s.declarationsPaired e.1 d)
  | none => return false

theorem repairAll_eq (sol : Solution) (d : VarId) (vs : List VarId) :
    repairAll sol d vs = inTurn (vs.map (repairOne sol d)) := by
  induction vs with
  | nil => rfl
  | cons v rest ih =>
    rw [repairAll, ih, List.map_cons, inTurn, repairOne]
    split <;> rfl

/-- One round repairs the keys in turn. -/
theorem repairKeys_eq (sol : Solution) (keys : List (FunctionKey × VarSet)) :
    repairKeys sol keys = inTurn (keys.map (repairKey sol)) := by
  induction keys with
  | nil => rfl
  | cons e rest ih =>
    rw [repairKeys, ih, List.map_cons, inTurn, repairKey, bind_assoc]
    refine bind_congr fun s => ?_
    cases s.arena.leastSafe? sol e.2 <;> rfl

/-- One declaration is repaired in the same way before and after others. -/
theorem repairOne_steady (hs : s.WellFormed) (sol : Solution) (d v : VarId) :
    Steady s (repairOne sol d v) := by
  unfold repairOne
  split
  · exact Steady.of_repairs (P := True) hs (fun _ _ => (.nothing : Answers sol _ _))
      (fun _ _ => .nothing trivial) (.pure rfl)
  · exact Steady.of_repairs hs (fun _ ht => repairDeclaration_answers d v ht)
      (fun _ ht => (repairDeclaration_repairs d v ht).mono fun _ => trivial)
      ((raisesAlike_within hs sol).repairDeclaration rfl rfl)

theorem repairKey_answers (e : FunctionKey × VarSet) (hs : s.WellFormed) :
    Answers sol (repairKey sol e) s := by
  apply Answers.bind_get
  split
  · exact repairAll_answers _ _ hs
  · exact .nothing

theorem repairKey_repairs (e : FunctionKey × VarSet) (hs : s.WellFormed) :
    Repairs sol (repairKey sol e) s True := by
  refine Repairs.bind_get (fun w hw => by simp only [hw.arena, hw.declarationsPaired]) ?_
  split
  · exact (repairAll_repairs _ _ hs).mono fun _ => trivial
  · exact .nothing trivial

/-- One key is repaired in the same way before and after other keys. -/
theorem repairKey_steady (hs : s.WellFormed) (sol : Solution) (e : FunctionKey × VarSet) :
    Steady s (repairKey sol e) := by
  refine Steady.of_repairs hs (fun _ ht => repairKey_answers e ht)
    (fun _ ht => repairKey_repairs e ht) (Matches.bind_get fun s' t' hst => ?_)
  have hpaired (d : VarId) : t'.declarationsPaired e.1 d = s'.declarationsPaired e.1 d :=
    (hst.right.declarationsPaired e.1 d).trans (hst.left.declarationsPaired e.1 d).symm
  rw [hst.arena]
  split
  · rw [hpaired]
    exact (raisesAlike_within hs sol).repairAll rfl (List.forall₂_refl _)
  · exact .pure rfl

/-! ## Sessions whose tables hold the same -/

/-- The bodiless ones among variables that are named there and back. -/
theorem filter_bodiless_pairs (h : Arena.Entwined ρ σ s.arena t.arena) (hs : s.WellFormed)
    {vs ws : List VarId} (hvs : List.Forall₂ (ρ.Pairs σ s.arena) vs ws) :
    List.Forall₂ (ρ.Pairs σ s.arena)
      (vs.filter fun v => (s.arena.function? v).any fun f => !f.hasBody)
      (ws.filter fun v => (t.arena.function? v).any fun f => !f.hasBody) := by
  have hfunctions : FunctionsCorrespond (fun s' t' => s' = s ∧ t' = t) (ρ.Pairs σ s.arena) := by
    rintro _ _ v w ⟨rfl, rfl⟩ hvw
    exact h.function_corresponds hvw hs.arena
  exact hfunctions.filter_bodiless ⟨rfl, rfl⟩ hvs

/-- Each session stands in the other, and what stands in their tables corresponds. Definitions and
declarations may come in another order. -/
structure Twins (ρ σ : Renaming) (s t : Session) : Prop where
  forth : s.Embeds ρ t
  back : t.Embeds σ s
  definitions : ∃ l, List.Forall₂ (fun e e' => e.1 = e'.1 ∧
    VarSet.Corresponds (ρ.Pairs σ s.arena) e.2 e'.2) s.pairing.definitions l ∧
      l.Perm t.pairing.definitions
  declarations : ∀ key {v w}, ρ.Pairs σ s.arena v w → ∃ l,
    List.Forall₂ (ρ.Pairs σ s.arena) (s.declarationsPaired key v) l ∧
      l.Perm (t.declarationsPaired key w)
  index : List.Forall₂ (fun e e' => e'.1 = e.1 ∧
    VarSet.Corresponds (ρ.Pairs σ s.arena) e.2 e'.2) s.index.entries t.index.entries
  implicits : List.Forall₂ (fun e e' => e'.1 = e.1 ∧
    VarSet.Corresponds (ρ.Pairs σ s.arena) e.2 e'.2) s.implicits.entries t.implicits.entries

namespace Twins

variable (h : Twins ρ σ s t)

include h

theorem arena : Arena.Entwined ρ σ s.arena t.arena := ⟨h.forth.arena, h.back.arena⟩

theorem functions : FunctionsCorrespond (Attuned ρ σ s t) (ρ.Pairs σ s.arena) := by
  intro s' t' v w hst hvw
  rw [hst.forth.left.arena, hst.forth.right.arena]
  exact h.arena.function_corresponds hvw h.forth.wellFormed.arena

/-! ### Repair -/

/-- Under solutions that agree, variables that stand for one another are raised alike. -/
theorem raise_matches (hsol : sol.Entwined ρ σ sol') (hvw : ρ.Pairs σ s.arena v w) (c : Category) :
    Matches (Attuned ρ σ s t) Eq (raise sol v c) (raise sol' w c) := by
  apply Matches.bind_get
  intro s' t' hst
  rw [hst.forth.left.arena, hst.forth.right.arena]
  cases hp : s.arena.pointer? v with
  | none =>
    have hnone : t.arena.pointer? w = none := by
      rw [← hvw.forth, h.forth.arena.pointer?_eq hvw.lt, hp]
      rfl
    rw [hnone]
    exact .pure rfl
  | some p =>
    obtain ⟨hp', hatoms, -⟩ := h.arena.pointer? hvw h.forth.wellFormed.arena hp
    rw [hp']
    have hany : ((p.rename ρ).atoms.any fun a => sol'.category a < c) =
        p.atoms.any fun a => sol.category a < c := by
      rw [Bool.eq_iff_iff]
      simp only [PointerVariable.rename, List.any_map, List.any_eq_true, Function.comp_apply]
      exact exists_congr fun a => and_congr_right fun ha => by rw [hsol a (hatoms a ha)]
    have hraised : List.Forall₂ (fun a a' => a ∈ p.atoms ∧ a' = ρ.atom a) p.atoms
        (p.rename ρ).atoms :=
      List.forall₂_map_right_iff.2 (List.forall₂_same.2 fun a ha => ⟨ha, rfl⟩)
    refine (Matches.forM hraised fun a a' haa' => ?_).bind_eq fun _ => .pure hany.symm
    obtain ⟨ha, rfl⟩ := haa'
    have hknown := h.forth.wellFormed.arena.atom_lt hp ha
    have hknown' := h.back.wellFormed.arena.atom_lt hp' (List.mem_map.2 ⟨a, ha, rfl⟩)
    exact (addConstraint_attuned (c := .atLeast a c) hknown hknown'
      (congrArg (Constraint.atLeast · c) (hatoms a ha))).discard

theorem raisesAlike (hsol : sol.Entwined ρ σ sol') :
    RaisesAlike (Attuned ρ σ s t) (ρ.Pairs σ s.arena) sol sol' where
  functions := h.functions
  same hvw hvw' := by
    constructor
    · rintro rfl
      exact hvw.forth.symm.trans hvw'.forth
    · rintro rfl
      exact hvw.back.symm.trans hvw'.back
  leastSafeLevel? {s' t' v w} hst hvw := by
    obtain ⟨hlevels, hback⟩ :=
      h.arena.levels hvw h.forth.wellFormed.arena h.back.wellFormed.arena
    rw [hst.forth.left.arena, hst.forth.right.arena, Arena.leastSafeLevel?, Arena.leastSafeLevel?,
      hlevels]
    exact Solution.leastSafe_map fun a ha => hsol a (hback a ha)
  hasWildLevel {s' t' v w} hst hvw := by
    obtain ⟨hlevels, hback⟩ :=
      h.arena.levels hvw h.forth.wellFormed.arena h.back.wellFormed.arena
    rw [hst.forth.left.arena, hst.forth.right.arena, Arena.hasWildLevel, Arena.hasWildLevel,
      hlevels]
    exact Solution.anyWild_map fun a ha => hsol a (hback a ha)
  raise c hvw := h.raise_matches hsol hvw c

/-- What is defined under one key is repaired alike. -/
theorem repairKey_matches (hsol : sol.Entwined ρ σ sol') {e e' : FunctionKey × VarSet}
    (he : e.1 = e'.1 ∧ VarSet.Corresponds (ρ.Pairs σ s.arena) e.2 e'.2) :
    Matches (Attuned ρ σ s t) Eq (repairKey sol e) (repairKey sol' e') := by
  obtain ⟨key, definitions⟩ := e
  obtain ⟨key', definitions'⟩ := e'
  obtain ⟨rfl, hdefinitions⟩ := he
  have hraises := h.raisesAlike hsol
  apply Matches.bind_get
  intro s' t' hst
  have hleast := hraises.leastSafe? hst hdefinitions
  dsimp only
  generalize s'.arena.leastSafe? sol definitions = d, t'.arena.leastSafe? sol' definitions' = d'
    at hleast
  cases hleast with
  | none => exact .pure rfl
  | @some d d' hd =>
    obtain ⟨l, hl, hperm⟩ := h.declarations key hd
    dsimp only
    rw [hst.forth.left.declarationsPaired, hst.forth.right.declarationsPaired, repairAll_eq sol',
      repairAll_eq]
    have halike := hraises.repairAll hd hl
    rw [repairAll_eq, repairAll_eq] at halike
    refine inTurn_reordered halike (hperm.map _) fun y hy => ?_
    obtain ⟨x, -, rfl⟩ := List.mem_map.1 hy
    exact repairOne_steady h.back.wellFormed sol' d' x

/-- A round repairs alike what is defined: keys in another order are brought into this one, since
each repair is steady. -/
theorem repair_matches (hsol : sol.Entwined ρ σ sol') :
    Matches (Attuned ρ σ s t) Eq (repair sol) (repair sol') := by
  obtain ⟨l, hl, hperm⟩ := h.definitions
  apply Matches.bind_get
  intro s' t' hst
  have hs : s'.pairing = s.pairing := by rw [hst.forth.left.only]
  have ht : t'.pairing = t.pairing := by rw [hst.forth.right.only]
  rw [hs, ht, repairKeys_eq, repairKeys_eq]
  have halike : Matches (Attuned ρ σ s t) Eq (inTurn (s.pairing.definitions.map (repairKey sol)))
      (inTurn (l.map (repairKey sol'))) := by
    clear hperm
    generalize s.pairing.definitions = keys at hl
    induction hl with
    | nil => exact .pure rfl
    | cons he _ ih =>
      exact (h.repairKey_matches hsol he).bind_eq fun first => ih.bind_eq fun _ => .pure rfl
  refine inTurn_reordered halike (hperm.map _) fun y hy => ?_
  obtain ⟨e, -, rfl⟩ := List.mem_map.1 hy
  exact repairKey_steady h.back.wellFormed sol' e

/-! ### Settling -/

/-- Rounds go alike: as many are made, and the solutions are entwined. -/
theorem settleFrom_matches (hsol : sol.Entwined ρ σ sol') (n rounds : Nat) :
    Matches (Attuned ρ σ s t) (fun r r' => r'.rounds = r.rounds ∧ r'.converged = r.converged ∧
      r.sol.Entwined ρ σ r'.sol) (settleFrom n rounds sol) (settleFrom n rounds sol') := by
  induction n generalizing rounds sol sol' with
  | zero => exact .pure ⟨rfl, rfl, hsol⟩
  | succ n ih =>
    refine (h.repair_matches hsol).bind_eq fun changed => ?_
    split
    · apply Matches.bind_get
      intro s' t' hst
      exact ih (hst.solutions h.forth.wellFormed h.back.wellFormed) _
    · exact .pure ⟨rfl, rfl, hsol⟩

theorem settle_matches (bound : Nat) :
    Matches (Attuned ρ σ s t) (fun r r' => r'.rounds = r.rounds ∧ r'.converged = r.converged ∧
      r.sol.Entwined ρ σ r'.sol) (settle bound) (settle bound) := by
  apply Matches.bind_get
  intro s' t' hst
  exact h.settleFrom_matches (hst.solutions h.forth.wellFormed h.back.wellFormed) bound 0

/-! ### Reports -/

theorem reports (hsol : sol.Entwined ρ σ sol') {x y : VarSet}
    (hxy : x.Corresponds (ρ.Pairs σ s.arena) y) : t.reports sol' y = s.reports sol x :=
  mapM_eq_of_forall₂ hxy fun _ _ hvw =>
    h.arena.report? hsol h.forth.wellFormed.arena h.back.wellFormed.arena hvw

theorem reportEntries (hsol : sol.Entwined ρ σ sol') {κ : Type} {m m' : OrderedMap κ VarSet}
    (hm : List.Forall₂ (fun e e' => e'.1 = e.1 ∧ VarSet.Corresponds (ρ.Pairs σ s.arena) e.2 e'.2)
      m.entries m'.entries) : t.reportEntries sol' m' = s.reportEntries sol m :=
  mapM_eq_of_forall₂ hm fun _ _ he => by rw [he.1, h.reports hsol he.2]

/-- What stands at anchors and what was made on demand is reported alike. -/
theorem assignment_matches (hsol : sol.Entwined ρ σ sol') :
    Matches (Attuned ρ σ s t)
      (fun a a' => a'.indexed = a.indexed ∧ a'.implicits = a.implicits) (assignment sol)
      (assignment sol') := by
  have hindexed := h.reportEntries hsol h.index
  have himplicits := h.reportEntries hsol h.implicits
  apply Matches.bind_get
  intro s' t' hst
  have hs : s'.assignment? sol = s.assignment? sol := by
    rw [hst.forth.left.only]
    rfl
  have ht : t'.assignment? sol' = t.assignment? sol' := by
    rw [hst.forth.right.only]
    rfl
  rw [hs, ht, assignment?, assignment?, hindexed, himplicits]
  cases s.reportEntries sol s.index with
  | none => exact .fault
  | some indexed =>
    cases s.reportEntries sol s.implicits with
    | none => exact .fault
    | some implicits => exact .pure ⟨rfl, rfl⟩

end Twins

end Session

end CheckedPointers
