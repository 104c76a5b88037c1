import CheckedPointers.Proofs.Session.Linking
import CheckedPointers.Proofs.Session.Repair
import CheckedPointers.Proofs.Variable.Coincidence

/-!
What operations record and nothing else. Bounding a variable records bounds on what it owns;
equating records equations between levels; repair hands a category on from a variable of a
definition to its partner in a declaration or back, one hop a round.
-/
namespace CheckedPointers

open Op

namespace Op

variable {α β : Type} {s : Session} {x : Op α} {f : α → Op β} {P Q : Constraint → Prop}

/-- From `s` the operation only records, and only constraints that `P` admits. -/
def Adds (P : Constraint → Prop) (x : Op α) (s : Session) : Prop :=
  Meets .records x s fun _ t => ∀ c ∈ t.solver.constraints, c ∈ s.solver.constraints ∨ P c

theorem Adds.mono (h : Adds P x s) (hPQ : ∀ c, P c → Q c) : Adds Q x s :=
  Meets.mono h fun _ _ _ h c hc => (h c hc).imp_right (hPQ c)

theorem Adds.pure {a : α} : Adds P (Pure.pure a) s := Meets.pure fun _ hc => .inl hc

theorem Adds.bind (hx : Adds P x s) (hf : ∀ a t, s.Records t → Adds P (f a) t) :
    Adds P (x >>= f) s := by
  refine Meets.bind hx fun a t hst ht => Meets.mono (hf a t hst) fun b w _ hw c hc => ?_
  exact (hw c hc).elim (ht c) .inr

theorem Adds.bind_get {f : Session → Op β} (h : Adds P (f s) s) : Adds P (get >>= f) s :=
  Meets.bind_get h

theorem Adds.bind_known {o : Option α} (h : ∀ a, o = some a → Adds P (f a) s) :
    Adds P (known o >>= f) s := Meets.bind_known h

theorem Adds.discard (h : Adds P x s) : Adds P (discard x) s := Meets.discard h

theorem Adds.forM {g : α → Op PUnit} {l : List α}
    (h : ∀ a ∈ l, ∀ t, s.Records t → Adds P (g a) t) : Adds P (l.forM g) s := by
  induction l generalizing s with
  | nil => exact .pure
  | cons a rest ih =>
    change Adds P (g a >>= fun _ => rest.forM g) s
    apply (h a List.mem_cons_self s (.refl s)).bind
    exact fun _ t hst => ih fun b hb w htw => h b (List.mem_cons_of_mem a hb) w (hst.trans htw)

end Op

namespace Session

variable {s t : Session} {sol : Solution} {P : Constraint → Prop}

theorem addConstraint_adds (c : Constraint) (s : Session) :
    Adds (· = c.normalized) (addConstraint c) s := by
  refine addConstraint_meets_of_ends fun b t hb => ?_
  obtain ⟨hst, ht, -⟩ := known_of_addConstraint hb
  refine ⟨hst, fun d hd => ?_⟩
  rw [ht, ConstraintSystem.mem_add_constraints] at hd
  exact hd.imp_right (·.1)

def BoundOn (arena : Arena) (k : Category) (v : VarId) (c : Constraint) : Prop :=
  ∃ a, arena.Owns v a ∧ c = .atLeast a k

theorem boundAtoms_adds (k : Category) (atoms : List Atom) (s : Session) :
    Adds (fun c => ∃ a ∈ atoms, c = .atLeast a k) (boundAtoms k atoms) s := by
  induction atoms generalizing s with
  | nil => exact .pure
  | cons a rest ih =>
    apply ((addConstraint_adds _ s).mono fun c hc => ⟨a, List.mem_cons_self, hc⟩).bind
    intro _ t _
    have hrest : Adds (fun c => ∃ b ∈ a :: rest, c = .atLeast b k) (boundAtoms k rest) t :=
      (ih t).mono fun c ⟨b, hb, hc⟩ => ⟨b, List.mem_cons_of_mem a hb, hc⟩
    exact hrest.bind fun _ _ _ => .pure

theorem boundBelow_adds (v : VarId) (k : Category) (s : Session) :
    Adds (BoundOn s.arena k v) (boundBelow v k) s := by
  apply Adds.bind_get
  apply Adds.bind_known
  intro atoms hatoms
  exact (boundAtoms_adds k atoms s).mono fun c ⟨a, ha, hc⟩ => ⟨a, ⟨atoms, hatoms, ha⟩, hc⟩

/-- Bounds on several variables are bounds on one of them. -/
theorem boundAll_adds (k : Category) (vs : List VarId) (s : Session) :
    Adds (fun c => ∃ v ∈ vs, BoundOn s.arena k v c) (boundAll k vs) s := by
  induction vs generalizing s with
  | nil => exact .pure
  | cons v rest ih =>
    apply ((boundBelow_adds v k s).mono fun c hc => ⟨v, List.mem_cons_self, hc⟩).bind
    intro _ t hst
    have hrest : Adds (fun c => ∃ w ∈ v :: rest, BoundOn s.arena k w c) (boundAll k rest) t :=
      (ih t).mono fun c ⟨w, hw, hc⟩ => ⟨w, List.mem_cons_of_mem v hw, hst.arena ▸ hc⟩
    exact hrest.bind fun _ _ _ => .pure

/-- Bounding a signature bounds what its function owns. -/
theorem boundSignature_adds {v : VarId} {f : FunctionVariable} (k : Category) (hs : s.WellFormed)
    (hf : s.arena.function? v = some f) : Adds (BoundOn s.arena k v) (boundSignature f k) s := by
  apply Adds.forM
  intro slot hslot t hst
  apply Adds.discard
  apply (boundAll_adds k slot.members t).mono
  rintro c ⟨p, hp, a, ha, hc⟩
  rw [hst.arena] at ha
  exact ⟨a, (hs.arena.owns_function hf).2 ⟨slot, hslot, p, hp, ha⟩, hc⟩

/-- Forcing a name bounds what its variants own. -/
theorem boundName_adds (name : String) (hs : s.WellFormed) :
    Adds (fun c => ∃ v ∈ s.variants name, BoundOn s.arena .leastSafe v c) (boundName name) s := by
  apply Adds.bind_get
  apply Adds.forM
  intro v hv t hst
  apply Adds.bind_get
  rw [← hst.arena]
  split
  · next f hf =>
    exact (boundSignature_adds .leastSafe (hst.creates.wellFormed hs) hf).mono
      fun c hc => ⟨v, hv, hc⟩
  · exact .pure

def EquationOf (arena : Arena) (a b : VarId) (c : Constraint) : Prop :=
  ∃ eqs, arena.equations? a b = some eqs ∧ ∃ e ∈ eqs, c = (Constraint.equal e.1 e.2).normalized

theorem equate_adds (a b : VarId) (s : Session) :
    Adds (EquationOf s.arena a b) (equate a b) s := by
  apply Adds.bind_get
  apply Adds.bind_known
  intro eqs heqs
  apply Adds.forM
  exact fun e he t _ => (addConstraint_adds _ t).discard.mono fun c hc => ⟨eqs, heqs, e, he, hc⟩

/-- Equations of sets are equations of a member of each. -/
theorem equateSets_adds (x y : VarSet) (s : Session) :
    Adds (fun c => ∃ a ∈ x, ∃ b ∈ y, EquationOf s.arena a b c) (equateSets x y) s := by
  apply Adds.forM
  intro a ha t hst
  apply Adds.forM
  intro b hb w htw
  rw [← (hst.trans htw).arena]
  exact (equate_adds a b w).mono fun c hc => ⟨a, ha, b, hb, hc⟩

/-! ## Repair -/

/-- The category of a level of one variable as a bound for a level of another one. -/
def HandsOn (arena : Arena) (sol : Solution) (p q : VarId) (c : Constraint) : Prop :=
  ∃ b ∈ arena.levels p, ∃ a ∈ arena.levels q, c = .atLeast a (sol.category b)

/-- Two variables at the same place of a definition and a declaration, in the order in which repair
hands categories on: back and forth between returns, and from the definition's parameters to the
declaration's. -/
inductive Partner (arena : Arena) (definition declaration : VarId) : VarId → VarId → Prop where
  | promised {f g : FunctionVariable} {p q : VarId} : arena.function? definition = some f →
      arena.function? declaration = some g → p ∈ f.returns → q ∈ g.returns →
      Partner arena definition declaration q p
  | returned {f g : FunctionVariable} {p q : VarId} : arena.function? definition = some f →
      arena.function? declaration = some g → p ∈ f.returns → q ∈ g.returns →
      Partner arena definition declaration p q
  | required {f g : FunctionVariable} {x y : VarSet} {p q : VarId} :
      arena.function? definition = some f → arena.function? declaration = some g →
      (x, y) ∈ f.params.zip g.params → p ∈ x → q ∈ y → Partner arena definition declaration p q

def LevelBound (arena : Arena) (v : VarId) (k : Category) (c : Constraint) : Prop :=
  ∃ p, arena.pointer? v = some p ∧ ∃ a ∈ p.atoms, c = .atLeast a k

theorem HandsOn.of_bound {arena : Arena} {p q : VarId} {b : Atom} {c : Constraint}
    (hb : b ∈ arena.levels p) (h : LevelBound arena q (sol.category b) c) :
    HandsOn arena sol p q c := by
  obtain ⟨x, hx, a, ha, hc⟩ := h
  exact ⟨b, hb, a, by rwa [Arena.levels_eq hx], hc⟩

theorem HandsOn.of_least {arena : Arena} {p q : VarId} {k : Category} {c : Constraint}
    (hk : arena.leastSafeLevel? sol p = some k) (h : LevelBound arena q k c) :
    HandsOn arena sol p q c := by
  obtain ⟨⟨b, hb, rfl⟩, -⟩ := Solution.leastSafe_eq_some hk
  exact .of_bound hb h

/-- Raising a variable bounds its own levels. -/
theorem raise_adds (v : VarId) (k : Category) (s : Session) :
    Adds (LevelBound s.arena v k) (raise sol v k) s := by
  apply Adds.bind_get
  split
  · next p hp =>
    have hatoms : Adds (LevelBound s.arena v k)
        (p.atoms.forM fun a => discard (addConstraint (.atLeast a k))) s :=
      Adds.forM fun a ha t _ => (addConstraint_adds _ t).discard.mono fun c hc => ⟨p, hp, a, ha, hc⟩
    exact hatoms.bind fun _ _ _ => .pure
  · exact .pure

/-- Repair hands categories between returns in both directions. -/
theorem repairReturn_adds (definition declaration : VarId) (s : Session) :
    Adds (fun c => HandsOn s.arena sol definition declaration c ∨
      HandsOn s.arena sol declaration definition c)
      (repairReturn sol definition declaration) s := by
  apply Adds.bind_get
  dsimp only
  split
  · next hwild =>
    obtain ⟨b, hb, hsolved⟩ := Arena.hasWildLevel_iff.1 hwild
    exact (raise_adds declaration .leastSafe s).mono fun c hc =>
      .inl (.of_bound hb (by rwa [hsolved]))
  · split
    · exact .pure
    · split
      · next k k' _ hk' =>
        split
        · exact (raise_adds definition k' s).mono fun c hc => .inr (.of_least hk' hc)
        · exact .pure
      · exact .pure

/-- Between parameters it hands them from the definition to the declaration only. -/
theorem repairParam_adds (definition declaration : VarId) (s : Session) :
    Adds (HandsOn s.arena sol definition declaration)
      (repairParam sol definition declaration) s := by
  apply Adds.bind_get
  dsimp only
  split
  · exact .pure
  · split
    · next k k' hk _ =>
      split
      · exact (raise_adds declaration k s).mono fun c hc => .of_least hk hc
      · exact .pure
    · exact .pure

theorem repairSlot_adds {repair : VarId → VarId → Op Bool} {x y : VarSet}
    (h : ∀ p ∈ x, ∀ q ∈ y, Adds P (repair p q) s) : Adds P (repairSlot repair sol x y) s := by
  apply Adds.bind_get
  dsimp only
  split
  · next p q hp hq => exact h p (Arena.mem_of_leastSafe? hp) q (Arena.mem_of_leastSafe? hq)
  · exact .pure

theorem repairParams_adds {slots : List (VarSet × VarSet)}
    (h : ∀ e ∈ slots, ∀ p ∈ e.1, ∀ q ∈ e.2, ∀ t, s.Records t → Adds P (repairParam sol p q) t) :
    Adds P (repairParams sol slots) s := by
  induction slots generalizing s with
  | nil => exact .pure
  | cons e rest ih =>
    have hfirst : Adds P (repairSlot (repairParam sol) sol e.1 e.2) s :=
      repairSlot_adds fun p hp q hq => h e List.mem_cons_self p hp q hq s (.refl s)
    apply hfirst.bind
    intro _ t hst
    have hrest : Adds P (repairParams sol rest) t := ih fun e' he' p hp q hq w htw =>
      h e' (List.mem_cons_of_mem e he') p hp q hq w (hst.trans htw)
    exact hrest.bind fun _ _ _ => .pure

/-- What reconciling returns and what reconciling parameters adds. -/
theorem repairDeclaration_adds_of {definition declaration : VarId}
    (hreturn : ∀ f g, s.arena.function? definition = some f →
      s.arena.function? declaration = some g → ∀ p ∈ f.returns, ∀ q ∈ g.returns,
        Adds P (repairReturn sol p q) s)
    (hparam : ∀ f g, s.arena.function? definition = some f →
      s.arena.function? declaration = some g → ∀ e ∈ f.params.zip g.params, ∀ p ∈ e.1, ∀ q ∈ e.2,
        ∀ t, s.Records t → Adds P (repairParam sol p q) t) :
    Adds P (repairDeclaration sol definition declaration) s := by
  apply Adds.bind_get
  dsimp only
  split
  · next f g hf hg =>
    apply (repairSlot_adds (hreturn f g hf hg)).bind
    intro _ t hst
    split
    · have hparams : Adds P (repairParams sol (f.params.zip g.params)) t :=
        repairParams_adds fun e he p hp q hq w htw =>
          hparam f g hf hg e he p hp q hq w (hst.trans htw)
      exact hparams.bind fun _ _ _ => .pure
    · exact .pure
  · exact .pure

/-- All that repair records of a pair goes from one of two partners to the other. -/
theorem repairDeclaration_adds (definition declaration : VarId) (s : Session) :
    Adds (fun c => ∃ p q, Partner s.arena definition declaration p q ∧ HandsOn s.arena sol p q c)
      (repairDeclaration sol definition declaration) s := by
  apply repairDeclaration_adds_of
  · intro f g hf hg p hp q hq
    apply (repairReturn_adds p q s).mono
    rintro c (hc | hc)
    · exact ⟨p, q, .returned hf hg hp hq, hc⟩
    · exact ⟨q, p, .promised hf hg hp hq, hc⟩
  · intro f g hf hg e he p hp q hq t hst
    apply (repairParam_adds p q t).mono
    intro c hc
    exact ⟨p, q, .required hf hg he hp hq, hst.arena ▸ hc⟩

def Pairs (s : Session) (sol : Solution) (definition declaration : VarId) : Prop :=
  ∃ e ∈ s.pairing.definitions, s.arena.leastSafe? sol e.2 = some definition ∧
    declaration ∈ s.declarationsPaired e.1 definition

instance {sol : Solution} {definition declaration : VarId} :
    Decidable (s.Pairs sol definition declaration) :=
  inferInstanceAs (Decidable (∃ e ∈ s.pairing.definitions, _ ∧ _))

/-- One round of repair may hand a category on from `p` to `q`. -/
def Hop (s : Session) (sol : Solution) (p q : VarId) : Prop :=
  ∃ definition declaration, s.Pairs sol definition declaration ∧
    Partner s.arena definition declaration p q

theorem Records.pairs (h : s.Records t) {definition declaration : VarId} :
    t.Pairs sol definition declaration ↔ s.Pairs sol definition declaration := by
  unfold Pairs
  simp only [h.arena, h.declarationsPaired]
  rw [h.only]

theorem Records.hop (h : s.Records t) {p q : VarId} : t.Hop sol p q ↔ s.Hop sol p q := by
  unfold Hop
  simp only [h.pairs, h.arena]

theorem repairAll_adds {definition : VarId} {declarations : List VarId}
    (h : ∀ d ∈ declarations, ∀ t, s.Records t → Adds P (repairDeclaration sol definition d) t) :
    Adds P (repairAll sol definition declarations) s := by
  induction declarations generalizing s with
  | nil => exact .pure
  | cons d rest ih =>
    have hrest : ∀ t, s.Records t → Adds P (repairAll sol definition rest) t := fun t hst =>
      ih fun d' hd' w htw => h d' (List.mem_cons_of_mem d hd') w (hst.trans htw)
    rw [repairAll]
    split
    · exact Adds.bind .pure fun _ t hst => (hrest t hst).bind fun _ _ _ => .pure
    · exact (h d List.mem_cons_self s (.refl s)).bind fun _ t hst =>
        (hrest t hst).bind fun _ _ _ => .pure

/-- All that a round records comes from some pair that repair reconciles. -/
theorem repairKeys_adds {keys : List (FunctionKey × VarSet)}
    (hkeys : ∀ e ∈ keys, e ∈ s.pairing.definitions)
    (h : ∀ definition declaration, s.Pairs sol definition declaration →
      ∀ t, s.Records t → Adds P (repairDeclaration sol definition declaration) t) :
    Adds P (repairKeys sol keys) s := by
  induction keys generalizing s with
  | nil => exact .pure
  | cons e rest ih =>
    obtain ⟨key, definitions⟩ := e
    have hrest : ∀ t, s.Records t → Adds P (repairKeys sol rest) t := by
      intro t hst
      apply ih
      · rw [hst.only]
        exact fun e he => hkeys e (List.mem_cons_of_mem _ he)
      · exact fun x y hxy w htw => h x y (hst.pairs.1 hxy) w (hst.trans htw)
    apply Adds.bind_get
    dsimp only
    split
    · next d hd =>
      have hfirst : Adds P (repairAll sol d (s.declarationsPaired key d)) s :=
        repairAll_adds fun d' hd' =>
          h d d' ⟨(key, definitions), hkeys _ List.mem_cons_self, hd, hd'⟩
      exact hfirst.bind fun _ t hst => (hrest t hst).bind fun _ _ _ => .pure
    · exact Adds.bind .pure fun _ t hst => (hrest t hst).bind fun _ _ _ => .pure

/-- A round of repair adds what reconciling the pairs adds. -/
theorem repair_adds_of (h : ∀ definition declaration, s.Pairs sol definition declaration →
    ∀ t, s.Records t → Adds P (repairDeclaration sol definition declaration) t) :
    Adds P (repair sol) s :=
  Adds.bind_get (repairKeys_adds (fun _ he => he) h)

/-- A round of repair bounds nothing but the levels of variables that are one hop away from a
variable that solved to the bound. -/
theorem repair_adds (sol : Solution) (s : Session) :
    Adds (fun c => ∃ p q, s.Hop sol p q ∧ HandsOn s.arena sol p q c) (repair sol) s := by
  apply repair_adds_of
  intro definition declaration hpairs t hst
  apply (repairDeclaration_adds definition declaration t).mono
  rintro c ⟨p, q, hpq, hc⟩
  rw [hst.arena] at hpq hc
  exact ⟨p, q, ⟨definition, declaration, hpairs, hpq⟩, hc⟩

/-- A category travels one hop a round: categories that satisfied every constraint before, and that
give each variable what the variables one hop away had solved to, satisfy what the round added. -/
theorem solves_of_repair {value : Atom → Category} {b : Bool}
    (h : (repair sol).Ends s b t) (hvalue : Solution.Solves value s.solver.constraints)
    (hhop : ∀ p q, s.Hop sol p q → ∀ a ∈ s.arena.levels p, ∀ a' ∈ s.arena.levels q,
      sol.category a ≤ value a') : Solution.Solves value t.solver.constraints := by
  intro c hc
  rcases ((repair_adds sol s).of_ends h).2 c hc with hc | ⟨p, q, hpq, a, ha, a', ha', rfl⟩
  · exact hvalue c hc
  · exact hhop p q hpq a ha a' ha'

end Session

end CheckedPointers
