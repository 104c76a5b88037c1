import CheckedPointers.Proofs.Session.Order

/-!
Looking is harmless. Whatever is looked up, and however far the look gets, what was indexed, noted
and collected stays as it was, old variables and atoms keep what they had, and only new atoms are
bounded; so every old atom solves as before.
-/
namespace CheckedPointers

open Op

namespace ConstraintSystem

variable {s t : ConstraintSystem}

/-- Beyond what `s` has recorded, `t` bounds atoms that `s` does not have. -/
def BoundsNew (s t : ConstraintSystem) : Prop :=
  ∀ c ∈ t.constraints, c ∈ s.constraints ∨
    ∃ a k, c = .atLeast a k ∧ s.cells.size ≤ a ∧ a < t.cells.size

theorem BoundsNew.trans {u : ConstraintSystem} (h : s.BoundsNew t) (h' : t.BoundsNew u)
    (hst : s.cells.size ≤ t.cells.size) (htu : t.cells.size ≤ u.cells.size) : s.BoundsNew u := by
  intro c hc
  rcases h' c hc with hc | ⟨a, k, rfl, hta, hau⟩
  · rcases h c hc with hc | ⟨a, k, rfl, hsa, hat⟩
    · exact .inl hc
    · exact .inr ⟨a, k, rfl, hsa, Nat.lt_of_lt_of_le hat htu⟩
  · exact .inr ⟨a, k, rfl, Nat.le_trans hst hta, hau⟩

/-- Bounds on new atoms link no old ones. -/
theorem BoundsNew.linked {a b : Atom} (h : s.BoundsNew t) (hab : Linked t.constraints a b) :
    Linked s.constraints a b := by
  have hold : ∀ x y, .equal x y ∈ t.constraints → .equal x y ∈ s.constraints := by
    intro x y hxy
    rcases h _ hxy with hxy | ⟨_, _, hxy, _⟩
    · exact hxy
    · cases hxy
  exact Relation.ReflTransGen.mono (fun x y hxy => hxy.imp (hold x y) (hold y x)) _ _ hab

/-- An old atom is reached by no new bound. -/
theorem BoundsNew.boundReaches_iff {a : Atom} {k : Category} (h : s.BoundsNew t) (hs : Sound s)
    (hg : s.Grows t) (ha : a < s.cells.size) :
    BoundReaches t.constraints a k ↔ BoundReaches s.constraints a k := by
  constructor
  · rintro ⟨b, hb, hab⟩
    have hab := h.linked hab
    rcases h _ hb with hb | ⟨c, j, hcj, hc, _⟩
    · exact ⟨b, hb, hab⟩
    · cases hcj
      exact absurd ha (hab.symm.eq_of_unknown hs.known hc ▸ Nat.not_lt.2 hc)
  · rintro ⟨b, hb, hab⟩
    exact ⟨b, hg.mem hb, hab.mono fun _ => hg.mem⟩

theorem BoundsNew.category_eq {a : Atom} (h : s.BoundsNew t) (hs : Sound s) (hg : s.Grows t)
    (ha : a < s.cells.size) : t.solve.category a = s.solve.category a := by
  have hle : ∀ d, t.solve.category a ≤ d ↔ s.solve.category a ≤ d := fun d => by
    rw [(hg.sound hs).category_le_iff (Nat.lt_of_lt_of_le ha hg.size_le), hs.category_le_iff ha]
    simp only [h.boundReaches_iff hs hg ha]
  exact Category.le_antisymm ((hle _).2 (Category.le_refl _)) ((hle _).1 (Category.le_refl _))

end ConstraintSystem

namespace Session

variable {s t w : Session} {u : TranslationUnit} {options : Options}

def evidence (s : Session) : Option (Nat × String × List (DeclId × List ExprId)) :=
  s.opened.map fun o => (o.id, o.file, o.candidates)

/-- What was indexed, noted and collected is the same, and what is new concerns new variables and
new atoms only. -/
structure Spares (s t : Session) : Prop where
  options : t.options = s.options
  index : t.index = s.index
  globals : t.globals = s.globals
  externs : t.externs = s.externs
  definitions : t.pairing.definitions = s.pairing.definitions
  pairs : t.pairing.pairs = s.pairing.pairs
  evidence : t.evidence = s.evidence
  arena : s.arena.Grows t.arena
  solver : s.solver.Grows t.solver
  bounds : s.solver.BoundsNew t.solver

theorem Spares.refl (s : Session) : s.Spares s :=
  ⟨rfl, rfl, rfl, rfl, rfl, rfl, rfl, .refl _, .refl _, fun _ => .inl⟩

/-- What is new in the second step is new in both. -/
theorem Spares.trans (h : s.Spares t) (h' : t.Spares w) : s.Spares w where
  options := h'.options.trans h.options
  index := h'.index.trans h.index
  globals := h'.globals.trans h.globals
  externs := h'.externs.trans h.externs
  definitions := h'.definitions.trans h.definitions
  pairs := h'.pairs.trans h.pairs
  evidence := h'.evidence.trans h.evidence
  arena := h.arena.trans h'.arena
  solver := h.solver.trans h'.solver
  bounds := h.bounds.trans h'.bounds h.solver.size_le h'.solver.size_le

/-- A visit that changes no other table than those of things made on demand, and records bounds on
new atoms only. -/
theorem Visits.spares (h : s.Visits t) (hs : s.WellFormed) (hexterns : t.externs = s.externs)
    (hdefinitions : t.pairing.definitions = s.pairing.definitions)
    (hpairs : t.pairing.pairs = s.pairing.pairs) (hevidence : t.evidence = s.evidence)
    (hbounds : ∀ c ∈ t.solver.constraints, c ∈ s.solver.constraints ∨
      ∃ a k, c = .atLeast a k ∧ s.solver.cells.size ≤ a) : s.Spares t where
  options := h.options
  index := h.index
  globals := h.globals
  externs := hexterns
  definitions := hdefinitions
  pairs := hpairs
  evidence := hevidence
  arena := h.arena
  solver := h.solver
  bounds c hc := by
    rcases hbounds c hc with hold | ⟨a, k, rfl, ha⟩
    · exact .inl hold
    · exact .inr ⟨a, k, rfl, ha, (h.wellFormed hs).solver.known _ hc⟩

/-- Every step of a look is harmless. -/
theorem LookStep.spares (h : s.LookStep t) (hs : s.WellFormed) : s.Spares t := by
  have hst := h.visits hs
  cases h with
  | builds h =>
    have hevidence : t.evidence = s.evidence := by rw [h.only, evidence, evidence]
    have hpairing : t.pairing = s.pairing := by rw [h.only]
    exact hst.spares hs (by rw [h.only]) (by rw [hpairing]) (by rw [hpairing]) hevidence h.bounds
  | signs | derives | bottoms => exact hst.spares hs rfl rfl rfl rfl fun _ => .inl
  | @quotes o e value ho =>
    refine hst.spares hs rfl rfl rfl (by simp [evidence, withLiteral, ho]) fun c hc => ?_
    rcases (ConstraintSystem.mem_add_constraints _ _ c).1 hc with hc | ⟨rfl, _⟩
    · exact .inl hc
    · exact .inr ⟨_, _, rfl, Nat.le_refl _⟩
  | guesses ho =>
    exact hst.spares hs rfl rfl rfl (by simp [evidence, withUnknownCallee, ho]) fun _ => .inl

theorem spares_of_looking (h : Frame.looking.rel s t) (hs : s.WellFormed) : s.Spares t :=
  looking_keeps (fun _ _ ht htw hst => hst.trans (htw.spares ht)) h hs (.refl s)

inductive Question where
  | decl (d : DeclId) (view : Viewpoint)
  | expr (e : ExprId) (view : Viewpoint)
  | signature (func : DeclId)

/-- The answer is the variables that a declaration or an expression denotes, or those of the
signature made for a function without a prototype. -/
def Question.ask (u : TranslationUnit) : Question → Op VarSet
  | decl d view => denoteDecl u d view
  | expr e view => denote u e view
  | signature func => implicitPrototype u func

theorem Question.ask_looking (q : Question) : Leaves .looking (q.ask u) s := by
  cases q with
  | decl d view => exact denoteDecl_looking d
  | expr e view => exact denote_looking
  | signature func => exact implicitPrototype_looking func

/-- In every session that arises, and wherever a look ends or fails, nothing is changed of what was
there, no equation is recorded and only new atoms are bounded, so old atoms keep their solved
categories. -/
theorem Arises.ask_spares (h : Arises options s) (u : TranslationUnit) (q : Question) :
    s.Spares (q.ask u s).2 ∧ ∀ a < s.solver.cells.size,
      (q.ask u s).2.solver.solve.category a = s.solver.solve.category a := by
  have hspares : s.Spares (q.ask u s).2 := spares_of_looking q.ask_looking h.wellFormed
  exact ⟨hspares, fun a ha => hspares.bounds.category_eq h.wellFormed.solver hspares.solver ha⟩

/-- A look at one statement of the unit makes three variables and a bound; a look at the other makes
two variables and is then given up. -/
theorem Arises.ask_spares_quotingUnit :
    ∃ s, Arises .default s ∧ s.arena.size = 8 ∧ s.solver.constraints.size = 0 ∧
      (∃ t, t = ((Question.expr 7 .body).ask quotingUnit s).2 ∧ t.arena.size = 11 ∧
        t.solver.constraints.size = 1 ∧ s.Spares t ∧
        ∀ a < s.solver.cells.size, t.solver.solve.category a = s.solver.solve.category a) ∧
      ∃ t, t = ((Question.expr 9 .body).ask quotingUnit s).2 ∧
        ((Question.expr 9 .body).ask quotingUnit s).1.toOption = none ∧ t.arena.size = 10 ∧
        s.Spares t ∧
        ∀ a < s.solver.cells.size, t.solver.solve.category a = s.solver.solve.category a := by
  let s := (Session.new .default).after (quotingRequests.take 4)
  have hs : Arises .default s :=
    Continues.after fun r hr => quotingRequests_lawful r (List.mem_of_mem_take hr)
  refine ⟨s, hs, by decide +kernel, by decide +kernel, ⟨_, rfl, ?_, ?_, ?_⟩, _, rfl, ?_, ?_, ?_⟩
  · decide +kernel
  · decide +kernel
  · exact Arises.ask_spares hs quotingUnit (.expr 7 .body)
  · decide +kernel
  · decide +kernel
  · exact Arises.ask_spares hs quotingUnit (.expr 9 .body)

end Session

end CheckedPointers
