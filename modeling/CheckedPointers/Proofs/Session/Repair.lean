import CheckedPointers.Proofs.Session.Recall
import CheckedPointers.Proofs.Session.Recording
import CheckedPointers.Session.Repair

/-!
One round of repair. It only records lower bounds. If it answers that nothing was raised, the
solved categories already satisfy every bound that it recorded, definitions and declarations agree
under them, and another round would do nothing at all.
-/
namespace CheckedPointers

open Op

namespace Solution

/-- The least safe category is reached, and none is less safe. -/
theorem leastSafe_eq_some {sol : Solution} {atoms : List Atom} {c : Category}
    (h : sol.leastSafe atoms = some c) :
    (∃ a ∈ atoms, sol.category a = c) ∧ ∀ a ∈ atoms, sol.category a ≤ c := by
  cases atoms with
  | nil => cases h
  | cons a rest =>
    have hfold : ∀ (l : List Atom) (c : Category),
        let d := l.foldl (fun c b => c.join (sol.category b)) c
        (d = c ∨ ∃ b ∈ l, sol.category b = d) ∧ c ≤ d ∧ ∀ b ∈ l, sol.category b ≤ d := by
      intro l
      induction l with
      | nil => exact fun c => ⟨.inl rfl, Category.le_refl c, fun _ h => nomatch h⟩
      | cons b l ih =>
        intro c
        obtain ⟨hreached, hle, hall⟩ := ih (c.join (sol.category b))
        have hb := Category.le_trans (Category.le_join_right c (sol.category b)) hle
        refine ⟨?_, Category.le_trans (Category.le_join_left c _) hle, fun x hx => ?_⟩
        · rcases hreached with hd | ⟨x, hx, hd⟩
          · rw [List.foldl_cons, hd, Category.join]
            split
            · exact .inr ⟨b, List.mem_cons_self, rfl⟩
            · exact .inl rfl
          · exact .inr ⟨x, List.mem_cons_of_mem _ hx, hd⟩
        · rcases List.mem_cons.1 hx with rfl | hx
          · exact hb
          · exact hall x hx
    obtain ⟨hreached, hle, hall⟩ := hfold rest (sol.category a)
    obtain rfl := Option.some.inj h
    refine ⟨?_, fun x hx => ?_⟩
    · rcases hreached with hd | ⟨x, hx, hd⟩
      · exact ⟨a, List.mem_cons_self, hd.symm⟩
      · exact ⟨x, List.mem_cons_of_mem _ hx, hd⟩
    · rcases List.mem_cons.1 hx with rfl | hx
      · exact hle
      · exact hall x hx

theorem leastSafe_isSome {sol : Solution} {atoms : List Atom} {a : Atom} (h : a ∈ atoms) :
    ∃ c, sol.leastSafe atoms = some c := by
  cases atoms with
  | nil => cases h
  | cons b rest => exact ⟨_, rfl⟩

end Solution

namespace Arena

variable {arena : Arena} {sol : Solution} {v : VarId}

theorem levels_eq {p : PointerVariable} (h : arena.pointer? v = some p) :
    arena.levels v = p.atoms := by
  simp only [levels, h]

theorem hasWildLevel_iff :
    arena.hasWildLevel sol v ↔ ∃ a ∈ arena.levels v, sol.category a = .wild := by
  unfold hasWildLevel Solution.anyWild
  rw [List.any_eq_true]
  simp only [decide_eq_true_eq]
  exact Iff.rfl

/-- The least safe member is a member. -/
theorem mem_of_leastSafe? {set : VarSet} (h : arena.leastSafe? sol set = some v) : v ∈ set := by
  have hfold : ∀ (l : List VarId) (x : VarId),
      l.foldl (arena.worse sol) x = x ∨ l.foldl (arena.worse sol) x ∈ l := by
    intro l
    induction l with
    | nil => exact fun x => .inl rfl
    | cons y l ih =>
      intro x
      rw [List.foldl_cons]
      rcases ih (arena.worse sol x y) with he | hmem
      · rw [he, worse]
        split
        · exact .inr List.mem_cons_self
        · exact .inl rfl
      · exact .inr (List.mem_cons_of_mem _ hmem)
  unfold leastSafe? at h
  split at h
  · cases h
  · next w rest hmembers =>
    obtain rfl := Option.some.inj h
    show _ ∈ set.members
    rw [hmembers]
    rcases hfold rest w with he | hmem
    · rw [he]
      exact List.mem_cons_self
    · exact List.mem_cons_of_mem _ hmem

def Tame (arena : Arena) (sol : Solution) (a b : VarId) : Prop :=
  ¬ arena.hasWildLevel sol a ∧ ¬ arena.hasWildLevel sol b

/-- One variable is at least as unsafe as another, as far as both have levels. -/
def Covers (arena : Arena) (sol : Solution) (a b : VarId) : Prop :=
  ∀ c d, arena.leastSafeLevel? sol a = some c → arena.leastSafeLevel? sol b = some d → d ≤ c

/-- A wild return of the definition is wild at every level in the declaration; otherwise what the
declaration returns is no less safe than what the definition does. -/
structure ReturnsAgree (arena : Arena) (sol : Solution) (definition declaration : VarId) :
    Prop where
  wild : arena.hasWildLevel sol definition →
    ∀ a ∈ arena.levels declaration, sol.category a = .wild
  tame : arena.Tame sol definition declaration → arena.Covers sol definition declaration

/-- What the definition requires of a parameter the declaration requires too. -/
def ParamsAgree (arena : Arena) (sol : Solution) (definition declaration : VarId) : Prop :=
  arena.Tame sol definition declaration → arena.Covers sol declaration definition

def SlotsAgree (arena : Arena) (sol : Solution) (agree : VarId → VarId → Prop) (s t : VarSet) :
    Prop :=
  ∀ a b, arena.leastSafe? sol s = some a → arena.leastSafe? sol t = some b → agree a b

/-- A definition and a declaration agree on their returns, and position by position on their
parameters if they have as many. -/
def Agree (arena : Arena) (sol : Solution) (definition declaration : VarId) : Prop :=
  ∀ f g, arena.function? definition = some f → arena.function? declaration = some g →
    arena.SlotsAgree sol (arena.ReturnsAgree sol) f.returns g.returns ∧
      (f.params.length = g.params.length → ∀ e ∈ f.params.zip g.params,
        arena.SlotsAgree sol (arena.ParamsAgree sol) e.1 e.2)

end Arena

namespace Session

variable {s t u : Session} {sol : Solution} {P P' : Prop}

def Adheres (sol : Solution) (s t : Session) : Prop :=
  ∀ c ∈ t.solver.constraints, c ∈ s.solver.constraints ∨ Solution.Satisfies sol.category c

theorem Adheres.refl (sol : Solution) (s : Session) : Adheres sol s s := fun _ hc => .inl hc

theorem Adheres.trans (h : Adheres sol s t) (h' : Adheres sol t u) : Adheres sol s u :=
  fun c hc => (h' c hc).elim (h c) .inr

/-- From `s` the repair records what it has to. If it answers that nothing was raised, `sol`
satisfies all of it and `P` holds; and it has nothing left to record. -/
def Repairs (sol : Solution) (x : Op Bool) (s : Session) (P : Prop) : Prop :=
  Recalls .records x s fun b t => b = false → Adheres sol s t ∧ P

theorem Repairs.mono {x : Op Bool} (h : Repairs sol x s P) (hP : P → P') : Repairs sol x s P' :=
  Recalls.mono h fun _ _ _ hb hfalse => ⟨(hb hfalse).1, hP (hb hfalse).2⟩

theorem Repairs.nothing (h : P) : Repairs sol (return false) s P :=
  Recalls.pure fun _ => ⟨.refl sol s, h⟩

/-- Two repairs, one after the other. -/
theorem Repairs.both {x y : Op Bool} (hx : Repairs sol x s P)
    (hy : ∀ t, s.Records t → Repairs sol y t P') :
    Repairs sol (do
      let first ← x
      let others ← y
      return first || others) s (P ∧ P') := by
  refine Recalls.bind hx fun first t hst hfirst => ?_
  refine Recalls.bind (hy t hst) fun others w htw hothers => Recalls.pure fun h => ?_
  obtain ⟨h₁, h₂⟩ := Bool.or_eq_false_iff.1 h
  obtain ⟨hst, hP⟩ := hfirst h₁
  obtain ⟨htw, hP'⟩ := hothers h₂
  exact ⟨hst.trans htw, hP, hP'⟩

/-- A repair looks at nothing that repairs change. -/
theorem Repairs.bind_get {f : Session → Op Bool} (hsame : ∀ w, s.Records w → f w = f s)
    (h : Repairs sol (f s) s P) : Repairs sol (get >>= f) s P :=
  Recalls.bind_get hsame h

/-- Recording adds one constraint at most, in its normal form; a second time it adds none. -/
theorem record_recalls (c : Constraint) (s : Session) :
    Recalls .records (discard (addConstraint c)) s fun _ t =>
      ∀ d ∈ t.solver.constraints, d ∈ s.solver.constraints ∨ d = c.normalized := by
  refine Meets.discard (addConstraint_meets_of_ends fun b t hb => ?_)
  obtain ⟨hst, ht, -⟩ := known_of_addConstraint hb
  refine ⟨hst, fun d hd => ?_, fun w (htw : t.Records w) => ends_discard.2 ⟨false, ?_⟩⟩
  · rw [ht, ConstraintSystem.mem_add_constraints] at hd
    exact hd.imp_right (·.1)
  · have hold : c.normalized.isTrivial ∨ c.normalized ∈ w.solver.constraints := by
      by_cases htriv : c.normalized.isTrivial
      · exact .inl htriv
      · refine .inr (htw.solver.mem ?_)
        rw [ht]
        exact (ConstraintSystem.mem_add_constraints _ _ _).2 (.inr ⟨rfl, htriv⟩)
    unfold Ends
    rw [addConstraint_run, ConstraintSystem.add_old hold]

theorem raiseAtoms_recalls (atoms : List Atom) (c : Category) (s : Session) :
    Recalls .records (atoms.forM fun a => discard (addConstraint (.atLeast a c))) s fun _ t =>
      ∀ d ∈ t.solver.constraints, d ∈ s.solver.constraints ∨ ∃ a ∈ atoms, d = .atLeast a c := by
  induction atoms generalizing s with
  | nil => exact Recalls.pure fun d hd => .inl hd
  | cons a rest ih =>
    change Recalls .records (discard (addConstraint (.atLeast a c)) >>= fun _ =>
      rest.forM fun a => discard (addConstraint (.atLeast a c))) s _
    refine Recalls.bind (record_recalls _ s) fun _ t _ ha => (ih t).mono fun _ u _ hrest d hd => ?_
    rcases hrest d hd with hd | ⟨b, hb, hd⟩
    · exact (ha d hd).imp_right fun h => ⟨a, List.mem_cons_self, h⟩
    · exact .inr ⟨b, List.mem_cons_of_mem a hb, hd⟩

/-- A variable that no level of which is raised had every level above the bound. -/
theorem raise_repairs (v : VarId) (c : Category) (hv : s.arena.isPointer v) :
    Repairs sol (raise sol v c) s (∀ a ∈ s.arena.levels v, c ≤ sol.category a) := by
  obtain ⟨p, hp⟩ := Arena.isPointer_iff.1 hv
  refine Repairs.bind_get (fun w hw => by rw [hw.arena]) ?_
  simp only [hp, Arena.levels_eq hp]
  refine Recalls.bind (raiseAtoms_recalls p.atoms c s) fun _ t _ hadds => Recalls.pure fun h => ?_
  have hle : ∀ a ∈ p.atoms, c ≤ sol.category a := by
    intro a ha
    rw [List.any_eq_false] at h
    exact Category.not_lt.1 (by simpa using h a ha)
  refine ⟨fun d hd => (hadds d hd).imp_right ?_, hle⟩
  rintro ⟨a, ha, rfl⟩
  exact hle a ha

/-- Raising a variable to a category above its least safe level raises something. -/
theorem not_raised {v : VarId} {c d : Category} (hc : s.arena.leastSafeLevel? sol v = some c)
    (hlt : c < d) (h : ∀ a ∈ s.arena.levels v, d ≤ sol.category a) : False := by
  obtain ⟨⟨a, ha, he⟩, -⟩ := Solution.leastSafe_eq_some hc
  have hle := h a ha
  rw [he] at hle
  exact absurd hlt (Category.not_lt.2 hle)

/-- If the answer is that nothing was raised, the returns agree; either way nothing is left to
record. -/
theorem repairReturn_repairs {definition declaration : VarId} (hd : s.arena.isPointer definition)
    (he : s.arena.isPointer declaration) :
    Repairs sol (repairReturn sol definition declaration) s
      (s.arena.ReturnsAgree sol definition declaration) := by
  refine Repairs.bind_get (fun w hw => by rw [hw.arena]) ?_
  dsimp only
  split
  · next hwild =>
    refine (raise_repairs declaration .leastSafe he).mono fun h => ⟨fun _ a ha => ?_, fun htame =>
      absurd hwild htame.1⟩
    exact Category.le_antisymm (Category.le_wild _) (h a ha)
  · next hdef =>
    have hno : ∀ Q : Prop, s.arena.hasWildLevel sol definition → Q := fun _ h => absurd h hdef
    split
    · next hwild =>
      exact Repairs.nothing ⟨hno _, fun htame => absurd hwild htame.2⟩
    · split
      · next c c' hc hc' =>
        split
        · next hlt =>
          refine (raise_repairs definition c' hd).mono fun h => ⟨hno _, fun _ => ?_⟩
          exact (not_raised hc hlt h).elim
        · next hge =>
          refine Repairs.nothing ⟨hno _, fun _ x y hx hy => ?_⟩
          obtain rfl := Option.some.inj (hc.symm.trans hx)
          obtain rfl := Option.some.inj (hc'.symm.trans hy)
          exact Category.not_lt.1 hge
      · next hnone =>
        exact Repairs.nothing ⟨hno _, fun _ x y hx hy => (hnone x y hx hy).elim⟩

/-- If the answer is that nothing was raised, the parameters agree; either way nothing is left to
record. -/
theorem repairParam_repairs {definition declaration : VarId}
    (he : s.arena.isPointer declaration) :
    Repairs sol (repairParam sol definition declaration) s
      (s.arena.ParamsAgree sol definition declaration) := by
  refine Repairs.bind_get (fun w hw => by rw [hw.arena]) ?_
  dsimp only
  split
  · next hwild =>
    refine Repairs.nothing fun htame => ?_
    rcases Bool.or_eq_true_iff.1 hwild with h | h
    · exact absurd h htame.1
    · exact absurd h htame.2
  · split
    · next c c' hc hc' =>
      split
      · next hlt =>
        exact (raise_repairs declaration c he).mono fun h _ => (not_raised hc' hlt h).elim
      · next hge =>
        refine Repairs.nothing fun _ x y hx hy => ?_
        obtain rfl := Option.some.inj (hc'.symm.trans hx)
        obtain rfl := Option.some.inj (hc.symm.trans hy)
        exact Category.not_lt.1 hge
    · next hnone => exact Repairs.nothing fun _ x y hx hy => (hnone y x hy hx).elim

/-- Slots agree if their least safe members do. -/
theorem repairSlot_repairs {repair : VarId → VarId → Op Bool} {agree : VarId → VarId → Prop}
    {x y : VarSet} (h : ∀ a ∈ x, ∀ b ∈ y, Repairs sol (repair a b) s (agree a b)) :
    Repairs sol (repairSlot repair sol x y) s (s.arena.SlotsAgree sol agree x y) := by
  refine Repairs.bind_get (fun w hw => by rw [hw.arena]) ?_
  dsimp only
  split
  · next a b ha hb =>
    have hmem := h a (Arena.mem_of_leastSafe? ha) b (Arena.mem_of_leastSafe? hb)
    refine hmem.mono fun hagree a' b' ha' hb' => ?_
    obtain rfl := Option.some.inj (ha.symm.trans ha')
    obtain rfl := Option.some.inj (hb.symm.trans hb')
    exact hagree
  · next hnone => exact Repairs.nothing fun a b ha hb => (hnone a b ha hb).elim

theorem repairParams_repairs (slots : List (VarSet × VarSet))
    (h : ∀ e ∈ slots, ∀ v ∈ e.2, s.arena.isPointer v) :
    Repairs sol (repairParams sol slots) s
      (∀ e ∈ slots, s.arena.SlotsAgree sol (s.arena.ParamsAgree sol) e.1 e.2) := by
  induction slots generalizing s with
  | nil => exact Repairs.nothing fun _ h => nomatch h
  | cons e rest ih =>
    have hslot : Repairs sol (repairSlot (repairParam sol) sol e.1 e.2) s
        (s.arena.SlotsAgree sol (s.arena.ParamsAgree sol) e.1 e.2) :=
      repairSlot_repairs fun _ _ b hb => repairParam_repairs (h e List.mem_cons_self b hb)
    have hrest : ∀ t, s.Records t → Repairs sol (repairParams sol rest) t
        (∀ e ∈ rest, s.arena.SlotsAgree sol (s.arena.ParamsAgree sol) e.1 e.2) := by
      intro t hst
      rw [← hst.arena] at h ⊢
      exact ih fun e' he' => h e' (List.mem_cons_of_mem e he')
    refine (Repairs.both hslot hrest).mono fun ⟨hfirst, hothers⟩ e' he' => ?_
    rcases List.mem_cons.1 he' with rfl | he'
    · exact hfirst
    · exact hothers e' he'

/-- A definition and a declaration agree once nothing was raised, whether they list as many
parameters or not. -/
theorem repairDeclaration_repairs (definition declaration : VarId) (hs : s.WellFormed) :
    Repairs sol (repairDeclaration sol definition declaration) s
      (s.arena.Agree sol definition declaration) := by
  refine Repairs.bind_get (fun w hw => by rw [hw.arena]) ?_
  dsimp only
  split
  · next f g hf hg =>
    have hreturns : Repairs sol (repairSlot (repairReturn sol) sol f.returns g.returns) s
        (s.arena.SlotsAgree sol (s.arena.ReturnsAgree sol) f.returns g.returns) :=
      repairSlot_repairs fun _ ha _ hb =>
        repairReturn_repairs ((hs.arena.slots hf List.mem_cons_self).isPointer ha)
          ((hs.arena.slots hg List.mem_cons_self).isPointer hb)
    have agree : s.arena.SlotsAgree sol (s.arena.ReturnsAgree sol) f.returns g.returns →
        (f.params.length = g.params.length → ∀ e ∈ f.params.zip g.params,
          s.arena.SlotsAgree sol (s.arena.ParamsAgree sol) e.1 e.2) →
        s.arena.Agree sol definition declaration := by
      intro h h' f' g' hf' hg'
      obtain rfl := Option.some.inj (hf.symm.trans hf')
      obtain rfl := Option.some.inj (hg.symm.trans hg')
      exact ⟨h, h'⟩
    by_cases hlen : f.params.length = g.params.length
    · simp only [hlen, if_true]
      have hparams : ∀ t, s.Records t → Repairs sol (repairParams sol (f.params.zip g.params)) t
          (∀ e ∈ f.params.zip g.params,
            s.arena.SlotsAgree sol (s.arena.ParamsAgree sol) e.1 e.2) := by
        intro t hst
        rw [← hst.arena]
        refine repairParams_repairs _ fun e he v hv => ?_
        have hmem := List.mem_cons_of_mem g.returns (List.of_mem_zip he).2
        rw [hst.arena]
        exact (hs.arena.slots hg hmem).isPointer hv
      exact (Repairs.both hreturns hparams).mono fun ⟨h, h'⟩ => agree h fun _ => h'
    · simp only [hlen, if_false]
      refine Recalls.bind hreturns fun first t _ hfirst => Recalls.pure fun hfalse => ?_
      exact (hfirst hfalse).imp_right fun h => agree h fun h' => absurd h' hlen
  · next hnone => exact Repairs.nothing fun f g hf hg => (hnone f g hf hg).elim

/-- All declarations of a definition agree with it if none of them was raised. -/
theorem repairAll_repairs (definition : VarId) (declarations : List VarId) (hs : s.WellFormed) :
    Repairs sol (repairAll sol definition declarations) s
      (∀ d ∈ declarations, d ≠ definition → s.arena.Agree sol definition d) := by
  induction declarations generalizing s with
  | nil => exact Repairs.nothing fun _ h => nomatch h
  | cons d rest ih =>
    have hrest : ∀ t, s.Records t → Repairs sol (repairAll sol definition rest) t
        (∀ d ∈ rest, d ≠ definition → s.arena.Agree sol definition d) := by
      intro t hst
      rw [← hst.arena]
      exact ih (hst.creates.wellFormed hs)
    have join : (d ≠ definition → s.arena.Agree sol definition d) ∧
        (∀ d ∈ rest, d ≠ definition → s.arena.Agree sol definition d) →
        ∀ x ∈ d :: rest, x ≠ definition → s.arena.Agree sol definition x := by
      rintro ⟨h, h'⟩ x hx
      rcases List.mem_cons.1 hx with rfl | hx
      · exact h
      · exact h' x hx
    rw [repairAll]
    split
    · next he =>
      have hfirst : Repairs sol (pure false) s (d ≠ definition → s.arena.Agree sol definition d) :=
        Repairs.nothing fun hne => absurd he hne
      exact (Repairs.both hfirst hrest).mono join
    · have hfirst : Repairs sol (repairDeclaration sol definition d) s
          (s.arena.Agree sol definition d) := repairDeclaration_repairs definition d hs
      exact (Repairs.both hfirst hrest).mono fun ⟨h, h'⟩ => join ⟨fun _ => h, h'⟩

theorem Records.declarationsPaired (h : s.Records t) (key : FunctionKey) (definition : VarId) :
    t.declarationsPaired key definition = s.declarationsPaired key definition := by
  rw [h.only]
  rfl

/-- The least safe of some definitions under a key agrees with every declaration that repair pairs
with it. -/
def KeyAgrees (s : Session) (sol : Solution) (e : FunctionKey × VarSet) : Prop :=
  ∀ definition, s.arena.leastSafe? sol e.2 = some definition →
    ∀ d ∈ s.declarationsPaired e.1 definition, d ≠ definition → s.arena.Agree sol definition d

theorem Records.keyAgrees (h : s.Records t) (e : FunctionKey × VarSet) :
    t.KeyAgrees sol e ↔ s.KeyAgrees sol e := by
  unfold KeyAgrees
  simp only [h.arena, h.declarationsPaired]

/-- Every key agrees if nothing was raised under any. -/
theorem repairKeys_repairs (keys : List (FunctionKey × VarSet)) (hs : s.WellFormed) :
    Repairs sol (repairKeys sol keys) s (∀ e ∈ keys, s.KeyAgrees sol e) := by
  induction keys generalizing s with
  | nil => exact Repairs.nothing fun _ h => nomatch h
  | cons e rest ih =>
    obtain ⟨key, definitions⟩ := e
    have hrest : ∀ t, s.Records t → Repairs sol (repairKeys sol rest) t
        (∀ e ∈ rest, s.KeyAgrees sol e) := by
      intro t hst
      exact (ih (hst.creates.wellFormed hs)).mono fun h e he => (hst.keyAgrees e).1 (h e he)
    refine Repairs.bind_get (fun w hw => by simp only [hw.arena, hw.declarationsPaired]) ?_
    have join : s.KeyAgrees sol (key, definitions) ∧ (∀ e ∈ rest, s.KeyAgrees sol e) →
        ∀ e ∈ (key, definitions) :: rest, s.KeyAgrees sol e := by
      rintro ⟨h, h'⟩ e he
      rcases List.mem_cons.1 he with rfl | he
      · exact h
      · exact h' e he
    dsimp only
    split
    · next d hd =>
      have hkey : Repairs sol (repairAll sol d (s.declarationsPaired key d)) s
          (∀ x ∈ s.declarationsPaired key d, x ≠ d → s.arena.Agree sol d x) :=
        repairAll_repairs d (s.declarationsPaired key d) hs
      refine (Repairs.both hkey hrest).mono fun ⟨h, h'⟩ => join ⟨fun definition hdef => ?_, h'⟩
      obtain rfl := Option.some.inj (hd.symm.trans hdef)
      exact h
    · next hnone =>
      have hkey : Repairs sol (pure false) s (s.KeyAgrees sol (key, definitions)) := by
        refine Repairs.nothing fun definition hdef => ?_
        rw [hnone] at hdef
        cases hdef
      exact (Repairs.both hkey hrest).mono join

def Agreed (s : Session) (sol : Solution) : Prop :=
  ∀ e ∈ s.pairing.definitions, s.KeyAgrees sol e

theorem Records.agreed (h : s.Records t) : t.Agreed sol ↔ s.Agreed sol := by
  unfold Agreed
  simp only [h.keyAgrees]
  rw [h.only]

/-- If a round raises nothing, all definitions and declarations agree; either way it has nothing
left to record. -/
theorem repair_repairs (sol : Solution) (hs : s.WellFormed) :
    Repairs sol (repair sol) s (s.Agreed sol) :=
  Repairs.bind_get (fun w hw => by rw [hw.only]) (repairKeys_repairs _ hs)

end Session

end CheckedPointers
