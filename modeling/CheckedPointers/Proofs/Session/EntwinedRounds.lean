import CheckedPointers.Proofs.Session.Twins

/-!
Linking of what came of one program in two ways. What is recorded in one session is recorded in the
other, and linking looks only at what the program had from the start. So it does the same in both,
and afterwards repair and reports go alike.
-/
namespace CheckedPointers

open Op

variable {ρ σ : Renaming}

/-! ## Constraints and solutions under other names -/

namespace ConstraintSystem

variable {s s' t t' : ConstraintSystem} {c : Constraint}

def RecordedIn (ρ : Renaming) (s t : ConstraintSystem) : Prop :=
  ∀ c ∈ s.constraints, t.Says (c.rename ρ)

/-- What a session says it says under new names, too. -/
theorem RecordedIn.says_rename (h : s.RecordedIn ρ t) (hc : s.Says c) : t.Says (c.rename ρ) := by
  rw [← says_normalized, ← Constraint.normalized_rename, says_normalized]
  rcases hc with htrivial | hmem
  · generalize c.normalized = d at htrivial
    cases d with
    | equal a b =>
      obtain rfl : a = b := by simpa [Constraint.isTrivial] using htrivial
      exact says_self t (ρ.atom a)
    | atLeast a k => cases htrivial
  · exact h _ hmem

/-- One constraint more may be recorded, if it is said there. -/
theorem RecordedIn.push (h : s.RecordedIn ρ t) (htt' : t.Grows t')
    (hpush : s'.constraints = s.constraints.push c.normalized) (hsaid : t'.Says (c.rename ρ)) :
    s'.RecordedIn ρ t' := by
  intro d hd
  rw [hpush, Array.mem_push] at hd
  rcases hd with hd | rfl
  · exact (h d hd).grows htt'
  · rw [← says_normalized, Constraint.normalized_rename, says_normalized]
    exact hsaid

end ConstraintSystem

namespace Session

variable {b s t s' t' : Session} {options : Options} {units units' : List TranslationUnit}
  {c : Constraint} {v w : VarId} {sol sol' : Solution}

/-- Constraints alone were added to both sessions, as many and the same. -/
structure InStep (ρ σ : Renaming) (s t s' t' : Session) : Prop where
  left : s.Records s'
  right : t.Records t'
  forth : s'.solver.RecordedIn ρ t'.solver
  back : t'.solver.RecordedIn σ s'.solver
  added : s'.solver.constraints.size + t.solver.constraints.size =
    t'.solver.constraints.size + s.solver.constraints.size

theorem InStep.says_iff (h : InStep ρ σ s t s' t') (hc : (c.rename ρ).rename σ = c) :
    s'.solver.Says c ↔ t'.solver.Says (c.rename ρ) :=
  ⟨h.forth.says_rename, fun hsaid => hc ▸ h.back.says_rename hsaid⟩

theorem addConstraint_of_old (h : s.solver.Says c) : addConstraint c s = (.ok false, s) := by
  rw [addConstraint_run, ConstraintSystem.add_old h]

/-- A constraint that says something new is recorded in canonical form. -/
theorem addConstraint_of_new (h : ¬ s.solver.Says c) (hc : c.Known s.solver.cells.size) :
    ∃ t, addConstraint c s = (.ok true, t) ∧ s.Records t ∧
      t.solver.constraints = s.solver.constraints.push c.normalized := by
  obtain ⟨cells, hcells, hadd⟩ := ConstraintSystem.add_new h hc
  refine ⟨{ s with solver := (s.solver.add c).2 }, ?_, ?_, ?_⟩
  · rw [addConstraint_run, hadd]
  · exact ⟨ConstraintSystem.grows_add hc, by simp, rfl⟩
  · rw [hadd]

/-- A constraint on atoms that are named there and back is recorded in both or in neither. -/
theorem addConstraint_inStep (hs : c.Known s.solver.cells.size)
    (ht : (c.rename ρ).Known t.solver.cells.size) (hc : (c.rename ρ).rename σ = c) :
    Matches (InStep ρ σ s t) Eq (addConstraint c) (addConstraint (c.rename ρ)) := by
  intro s₁ t₁ h
  by_cases hsaid : s₁.solver.Says c
  · rw [addConstraint_of_old hsaid, addConstraint_of_old ((h.says_iff hc).1 hsaid)]
    exact .ends h rfl
  · have hsaid' : ¬ t₁.solver.Says (c.rename ρ) := fun hsaid' => hsaid ((h.says_iff hc).2 hsaid')
    obtain ⟨s₂, hrun, hs₂, hpush⟩ := addConstraint_of_new hsaid (h.left.size.symm ▸ hs)
    obtain ⟨t₂, hrun', ht₂, hpush'⟩ := addConstraint_of_new hsaid' (h.right.size.symm ▸ ht)
    rw [hrun, hrun']
    have hsays : s₂.solver.Says c := .inr (hpush ▸ Array.mem_push_self)
    have hsays' : t₂.solver.Says (c.rename ρ) := .inr (hpush' ▸ Array.mem_push_self)
    refine .ends ⟨h.left.trans hs₂, h.right.trans ht₂, ?_, ?_, ?_⟩ rfl
    · exact h.forth.push ht₂.solver hpush hsays'
    · exact h.back.push hs₂.solver hpush' (hc.symm ▸ hsays)
    · have hadded := h.added
      rw [hpush, hpush', Array.size_push, Array.size_push]
      omega

theorem InStep.attuned (h : InStep ρ σ s t s' t') : Attuned ρ σ s t s' t' :=
  ⟨⟨h.left, h.right, fun c hc => (h.forth c hc).entails⟩,
    ⟨h.right, h.left, fun c hc => (h.back c hc).entails⟩⟩

namespace Entwined

variable (h : Entwined options units units' ρ σ b s t)

include h

theorem inStep : InStep ρ σ s t s t :=
  ⟨.refl s, .refl t, h.forth.recorded, h.back.recorded, Nat.add_comm _ _⟩

/-! ## Linking -/

/-- A constraint on atoms that the program had from the start. -/
theorem addConstraint_kept (hc : c.Known b.solver.cells.size) :
    Matches (InStep ρ σ s t) Eq (addConstraint c) (addConstraint c) := by
  have hρ : c.rename ρ = c := (Constraint.rename_congr h.agrees hc).trans c.rename_id
  have hσ : c.rename σ = c := (Constraint.rename_congr h.agrees' hc).trans c.rename_id
  have hs := hc.mono h.left.follows.solver.size_le
  have ht := hc.mono h.right.follows.solver.size_le
  have hmatches := addConstraint_inStep (ρ := ρ) (σ := σ) hs (hρ.symm ▸ ht) (by rw [hρ, hσ])
  rwa [hρ] at hmatches

theorem boundAtoms_kept (c : Category) {atoms : List Atom}
    (hatoms : ∀ a ∈ atoms, a < b.solver.cells.size) :
    Matches (InStep ρ σ s t) Eq (boundAtoms c atoms) (boundAtoms c atoms) := by
  induction atoms with
  | nil => exact .pure rfl
  | cons a rest ih =>
    obtain ⟨ha, hrest⟩ := List.forall_mem_cons.1 hatoms
    exact (h.addConstraint_kept (c := .atLeast a c) ha).bind_eq fun _ => (ih hrest).bind_eq fun _ => .pure rfl

/-- Bounds on what the indexed program had are recorded on both sides. -/
theorem boundBelow_kept (c : Category) (hv : v < b.arena.size) :
    Matches (InStep ρ σ s t) Eq (boundBelow v c) (boundBelow v c) := by
  obtain ⟨atoms, hatoms, hknown⟩ := h.indexed.arena.exists_atoms hv
  apply Matches.bind_get
  intro s' t' hst
  have hs : s'.arena.atoms? v = some atoms :=
    hst.left.arena ▸ h.left.follows.arena.atomsWithin_eq hatoms
  have ht : t'.arena.atoms? v = some atoms :=
    hst.right.arena ▸ h.right.follows.arena.atomsWithin_eq hatoms
  rw [hs, ht]
  exact h.boundAtoms_kept c hknown

/-- Equations between variables of the indexed program are recorded on both sides. -/
theorem equate_kept (hv : v < b.arena.size) (hw : w < b.arena.size) :
    Matches (InStep ρ σ s t) Eq (equate v w) (equate v w) := by
  obtain ⟨eqs, heqs, hknown⟩ := h.indexed.arena.exists_equations hv hw
  apply Matches.bind_get
  intro s' t' hst
  have hs : s'.arena.equations? v w = some eqs :=
    hst.left.arena ▸ h.left.follows.arena.equationsWithin_eq heqs
  have ht : t'.arena.equations? v w = some eqs :=
    hst.right.arena ▸ h.right.follows.arena.equationsWithin_eq heqs
  rw [hs, ht]
  exact Matches.forM_eq fun e he =>
    (h.addConstraint_kept (c := .equal e.1 e.2) (hknown e he)).discard

/-- Linking looks only at what the program had from the start. -/
theorem linksAlike :
    LinksAlike (InStep ρ σ s t) fun v w => v < b.arena.size ∧ v = w where
  functions s' t' v w hst hvw := by
    obtain ⟨hv, rfl⟩ := hvw
    rw [hst.left.arena, hst.right.arena, h.left.follows.arena.function?_eq hv,
      h.right.follows.arena.function?_eq hv]
    cases hf : b.arena.function? v with
    | none => exact .none
    | some f =>
      have hslot : ∀ slot ∈ f.slots, ∀ x ∈ slot.members, x < b.arena.size ∧ x = x :=
        fun slot hslot x hx => ⟨(h.indexed.arena.slot_lt hf hslot hx).2, rfl⟩
      refine .some ⟨List.forall₂_same.2 (hslot _ List.mem_cons_self), ?_, rfl, rfl⟩
      exact List.forall₂_same.2 fun slot hmem =>
        List.forall₂_same.2 (hslot slot (List.mem_cons_of_mem _ hmem))
  boundBelow c hvw := hvw.2 ▸ h.boundBelow_kept c hvw.1
  equate hvw hvw' := hvw.2 ▸ hvw'.2 ▸ h.equate_kept hvw.1 hvw'.1

/-- Following leaves the tables that linking reads as indexing left them. -/
theorem sameTables (hs : s.opened = none) (ht : t.opened = none) :
    SameTables (InStep ρ σ s t) (fun v w => v < b.arena.size ∧ v = w) s.solver.constraints.size
      t.solver.constraints.size where
  closed hst := by
    rw [hst.left.only, hst.right.only]
    exact ⟨hs, ht⟩
  options hst := by
    rw [hst.left.only, hst.right.only]
    exact h.forth.options
  externs hst := by
    rw [hst.left.only, hst.right.only]
    exact h.right.demands.externs.trans h.left.demands.externs.symm
  index hst := by
    rw [hst.left.only, hst.right.only]
    refine ⟨h.right.follows.index.trans h.left.follows.index.symm, fun set hset v hv => ?_⟩
    obtain ⟨e, he, rfl⟩ := List.mem_map.1 hset
    rw [h.left.follows.index] at he
    exact ⟨h.indexed.index e he v hv, rfl⟩
  globals hst := by
    rw [hst.left.only, hst.right.only]
    refine ⟨h.right.follows.globals.trans h.left.follows.globals.symm, fun set hset v hv => ?_⟩
    obtain ⟨e, he, rfl⟩ := List.mem_map.1 hset
    rw [h.left.follows.globals] at he
    exact ⟨Arena.lt_of_isFunction (h.indexed.globals e he v hv), rfl⟩
  added hst := hst.added

theorem link_matches (hs : s.opened = none) (ht : t.opened = none) :
    Matches (InStep ρ σ s t) Eq link link := h.linksAlike.link (h.sameTables hs ht)

/-! ## Repair and reports -/

theorem variants_pairs {name : String}
    (hv : v ∈ ((s.globals.find? name).getD .empty).members) : ρ.Pairs σ s.arena v v := by
  rw [h.left.follows.globals] at hv
  cases hset : b.globals.find? name with
  | none => simp [hset, VarSet.empty] at hv
  | some set =>
    rw [hset] at hv
    exact h.pairs_self (Arena.lt_of_isFunction
      (h.indexed.globals _ (OrderedMap.mem_of_find? hset) v hv))

/-- What repair takes for the declarations of a definition corresponds. -/
theorem declarationsPaired (key : FunctionKey) (hvw : ρ.Pairs σ s.arena v w) :
    List.Forall₂ (ρ.Pairs σ s.arena) (s.declarationsPaired key v)
      (t.declarationsPaired key w) := by
  have hpairs : t.pairing.pairs = s.pairing.pairs :=
    h.right.demands.pairs.trans h.left.demands.pairs.symm
  have hpaired : Option.Rel (VarSet.Corresponds (ρ.Pairs σ s.arena)) (s.pairing.paired? key)
      (t.pairing.paired? key) := by
    rw [Pairing.paired?, Pairing.paired?, Pairing.pairedKey?, Pairing.pairedKey?, hpairs]
    cases s.pairing.pairs.find? key with
    | none => exact .none
    | some key' => exact h.declared key'
  have hglobals : t.globals = s.globals :=
    h.right.follows.globals.trans h.left.follows.globals.symm
  rw [Session.declarationsPaired, Session.declarationsPaired, h.arena.name_eq hvw, hglobals]
  generalize s.pairing.paired? key = paired, t.pairing.paired? key = paired' at hpaired
  cases hpaired with
  | some hset => exact hset
  | none =>
    refine List.rel_append ?_ (h.forth.implicits_correspond h.back key)
    exact filter_bodiless_pairs h.arena h.forth.wellFormed
      (List.forall₂_same.2 fun x => h.variants_pairs)

/-- Keys of definitions are those of the indexed program, in the same order. -/
theorem twins : Twins ρ σ s t where
  forth := h.forth
  back := h.back
  definitions := by
    refine ⟨s.pairing.definitions, ?_, ?_⟩
    · rw [h.left.demands.definitions]
      refine List.forall₂_same.2 fun e he => ⟨rfl, List.forall₂_same.2 fun x hx => ?_⟩
      exact h.pairs_self (Arena.lt_of_isFunction (h.indexed.definitions e he x hx))
    · rw [h.left.demands.definitions, h.right.demands.definitions]
  declarations key _ _ hvw := ⟨_, h.declarationsPaired key hvw, .refl _⟩
  index := by
    rw [h.right.follows.index, h.left.follows.index]
    exact List.forall₂_same.2 fun e he =>
      ⟨rfl, List.forall₂_same.2 fun v hv => h.pairs_self (h.indexed.index e he v hv)⟩
  implicits := h.forth.implicits_entries h.back h.left.reachable h.right.reachable

end Entwined

end Session

end CheckedPointers
