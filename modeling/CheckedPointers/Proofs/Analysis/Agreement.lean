import CheckedPointers.Proofs.Analysis.Phases
import CheckedPointers.Proofs.Session.Hops

/-!
How far a definition reaches. Repair makes a definition agree with the declarations that it is
paired with, and linking makes neighbours among the declarations of a name agree with each other.
So what the definition requires arrives at a declaration if an unbroken line of neighbours leads
there; a neighbour that lists fewer parameters, or fewer levels, breaks the line.
-/
namespace CheckedPointers

open Op

inductive Position where
  | ret
  | param (i : Nat)
  deriving DecidableEq

namespace Position

def slot : Position → FunctionVariable → VarSet
  | ret, f => f.returns
  | param i, f => f.params[i]?.getD .empty

/-- Declarations are equated there: on returns always, on parameters if they list as many. -/
def Alike : Position → FunctionVariable → FunctionVariable → Prop
  | ret, _, _ => True
  | param _, f, g => f.params.length = g.params.length

theorem Alike.refl (pos : Position) (f : FunctionVariable) : pos.Alike f f := by
  cases pos with
  | ret => trivial
  | param i => exact Eq.refl _

theorem Alike.trans {pos : Position} {f g h : FunctionVariable} (hfg : pos.Alike f g)
    (hgh : pos.Alike g h) : pos.Alike f h := by
  cases pos with
  | ret => trivial
  | param i => exact Eq.trans hfg hgh

theorem Alike.symm {pos : Position} {f g : FunctionVariable} (h : pos.Alike f g) :
    pos.Alike g f := by
  cases pos with
  | ret => trivial
  | param i => exact Eq.symm h

theorem slot_mem {pos : Position} {f : FunctionVariable} {p : VarId} (h : p ∈ pos.slot f) :
    pos.slot f ∈ f.slots := by
  cases pos with
  | ret => exact List.mem_cons_self
  | param i =>
    refine List.mem_cons_of_mem _ ?_
    simp only [slot] at h ⊢
    cases hi : f.params[i]? with
    | none => simp [hi] at h
    | some set => exact List.mem_of_getElem? hi

/-- Parameters at one position meet when two lists of parameters are gone through together. -/
theorem slots_mem_zip {i : Nat} {f g : FunctionVariable} {p q : VarId} (hp : p ∈ (param i).slot f)
    (hq : q ∈ (param i).slot g) :
    ((param i).slot f, (param i).slot g) ∈ f.params.zip g.params := by
  simp only [slot] at hp hq ⊢
  cases hi : f.params[i]? with
  | none => simp [hi] at hp
  | some x =>
    cases hj : g.params[i]? with
    | none => simp [hj] at hq
    | some y => exact List.mem_of_getElem? (List.getElem?_zip_eq_some.2 ⟨hi, hj⟩)

end Position

namespace Arena

variable {arena : Arena} {n : Nat} {f : FunctionVariable} {pos : Position} {v p q : VarId}

/-- A function has one pointer at most at a place. -/
theorem WellFormed.slot_eq (h : arena.WellFormed n) (hf : arena.function? v = some f)
    (hp : p ∈ pos.slot f) : pos.slot f = .singleton p ∧ arena.isPointer p := by
  have hslot := h.slots hf (Position.slot_mem hp)
  refine ⟨?_, hslot.isPointer hp⟩
  rcases hslot with he | ⟨q, hq, -⟩
  · rw [he] at hp
    exact absurd hp (VarSet.not_mem_empty p)
  · rw [hq] at hp ⊢
    rw [(VarSet.mem_singleton q p).1 hp]

theorem WellFormed.returns_eq (h : arena.WellFormed n) (hf : arena.function? v = some f)
    (hp : p ∈ f.returns) : f.returns = .singleton p := by
  have hret : p ∈ Position.ret.slot f := hp
  exact (h.slot_eq hf hret).1

/-- The levels that two pointers both have are among what is equated. -/
theorem zip_subset_equations {x y : PointerVariable} {eqs : List (Atom × Atom)} (hne : p ≠ q)
    (hx : arena.pointer? p = some x) (hy : arena.pointer? q = some y)
    (h : arena.equations? p q = some eqs) : x.atoms.zip y.atoms ⊆ eqs := by
  unfold equations? equationsWithin at h
  simp only [if_neg hne, getElem?_of_pointer? hx, getElem?_of_pointer? hy, Option.bind_eq_bind,
    Option.bind_some] at h
  split at h
  · obtain ⟨eqs', -, he⟩ := Option.bind_eq_some_iff.1 h
    rw [← Option.some.inj he]
    exact List.subset_append_left ..
  · rw [← Option.some.inj h]
    exact List.Subset.refl _

/-- Two pointers solve alike on their outer `n` levels. -/
def AlikeTo (arena : Arena) (sol : Solution) (n : Nat) (p q : VarId) : Prop :=
  ((arena.levels p).take n).map sol.category = ((arena.levels q).take n).map sol.category

/-- Each of `n` levels at most is matched by a level of the other pointer. -/
theorem AlikeTo.exists_level {sol : Solution} {a : Atom} (h : arena.AlikeTo sol n p q)
    (hn : (arena.levels p).length ≤ n) (ha : a ∈ arena.levels p) :
    ∃ b ∈ arena.levels q, sol.category b = sol.category a := by
  have hmem : sol.category a ∈ ((arena.levels q).take n).map sol.category := by
    rw [← h, List.take_of_length_le hn]
    exact List.mem_map_of_mem ha
  obtain ⟨b, hb, he⟩ := List.mem_map.1 hmem
  exact ⟨b, List.mem_of_mem_take hb, he⟩

/-- What covers a pointer that another solves like to its last level covers no less there. -/
theorem AlikeTo.covers {sol : Solution} {d : VarId} (h : arena.AlikeTo sol n p q)
    (hn : (arena.levels p).length ≤ n) (hne : arena.levels p ≠ []) (hd : arena.Covers sol p d) :
    arena.Covers sol q d := by
  intro c k hc hk
  obtain ⟨a, ha⟩ := List.exists_mem_of_ne_nil _ hne
  obtain ⟨e, he⟩ : ∃ e, sol.leastSafe (arena.levels p) = some e := Solution.leastSafe_isSome ha
  obtain ⟨⟨b, hb, hbe⟩, -⟩ := Solution.leastSafe_eq_some he
  obtain ⟨x, hx, hxb⟩ := h.exists_level hn hb
  have hle : e ≤ c := by
    rw [← hbe, ← hxb]
    exact (Solution.leastSafe_eq_some hc).2 x hx
  exact Category.le_trans (hd e k he hk) hle

end Arena

/-- Lists that agree pair by pair have equal images of their first `n` members. -/
theorem take_map_eq {α β : Type} {g : α → β} {n : Nat} {l l' : List α} (hl : n ≤ l.length)
    (hl' : n ≤ l'.length) (h : ∀ e ∈ l.zip l', g e.1 = g e.2) :
    (l.take n).map g = (l'.take n).map g := by
  induction n generalizing l l' with
  | zero => simp
  | succ n ih =>
    cases l with
    | nil => cases hl
    | cons a l =>
      cases l' with
      | nil => cases hl'
      | cons b l' =>
        rw [List.take_succ_cons, List.take_succ_cons, List.map_cons, List.map_cons]
        congr 1
        · exact h (a, b) List.mem_cons_self
        · exact ih (Nat.le_of_succ_le_succ hl) (Nat.le_of_succ_le_succ hl')
            fun e he => h e (List.mem_cons_of_mem _ he)

namespace Session

variable {s : Session} {l : List VarId} {pos : Position} {n : Nat} {x y z p q : VarId}
  {f g : FunctionVariable}

/-- Two pointers that were equated solve alike as far as both go. -/
theorem Equated.alikeTo (h : s.Equated p q) (hs : s.WellFormed) (hp : s.arena.isPointer p)
    (hq : s.arena.isPointer q) (hnp : n ≤ (s.arena.levels p).length)
    (hnq : n ≤ (s.arena.levels q).length) : s.arena.AlikeTo s.solver.solve n p q := by
  by_cases hne : p = q
  · rw [hne]
    exact Eq.refl _
  · obtain ⟨eqs, heqs, hall⟩ := h
    refine take_map_eq hnp hnq fun e he => (hall e ?_).satisfies hs.solver
    obtain ⟨x, hx⟩ := Arena.isPointer_iff.1 hp
    obtain ⟨y, hy⟩ := Arena.isPointer_iff.1 hq
    rw [Arena.levels_eq hx, Arena.levels_eq hy] at he
    exact Arena.zip_subset_equations hne hx hy heqs he

theorem Reconciled.equatedSets (h : s.Reconciled x y) (hf : s.arena.function? x = some f)
    (hg : s.arena.function? y = some g) (halike : pos.Alike f g) :
    s.EquatedSets (pos.slot f) (pos.slot g) := by
  obtain ⟨hreturns, hparams⟩ := h f g hf hg
  cases pos with
  | ret => exact hreturns
  | param i =>
    exact fun a ha b hb => hparams halike _ (Position.slots_mem_zip ha hb) a ha b hb

/-- Two neighbours, in either order, that are equated at a place and have pointers of `n` levels at
least there. -/
def Joins (s : Session) (l : List VarId) (pos : Position) (n : Nat) (x y : VarId) : Prop :=
  (∃ pre post, l = pre ++ x :: y :: post ∨ l = pre ++ y :: x :: post) ∧
    ∃ f g, s.arena.function? x = some f ∧ s.arena.function? y = some g ∧ pos.Alike f g ∧
      ∃ p ∈ pos.slot f, ∃ q ∈ pos.slot g,
        n ≤ (s.arena.levels p).length ∧ n ≤ (s.arena.levels q).length

/-- An unbroken line of such neighbours. -/
def Reaches (s : Session) (l : List VarId) (pos : Position) (n : Nat) : VarId → VarId → Prop :=
  Relation.ReflTransGen (s.Joins l pos n)

/-- Neighbours that a join relates have equal categories down to the level it speaks of. -/
theorem Joins.alikeTo (h : s.Joins l pos n x y) (hl : l.IsChain (s.Reconciled · ·))
    (hs : s.WellFormed) (hf : s.arena.function? x = some f) (hg : s.arena.function? y = some g)
    (hp : p ∈ pos.slot f) (hq : q ∈ pos.slot g) : s.arena.AlikeTo s.solver.solve n p q := by
  obtain ⟨⟨pre, post, hsplit⟩, f', g', hf', hg', halike, p', hp', q', hq', hnp, hnq⟩ := h
  obtain rfl := Option.some.inj (hf.symm.trans hf')
  obtain rfl := Option.some.inj (hg.symm.trans hg')
  obtain ⟨hslot, hptr⟩ := hs.arena.slot_eq hf hp
  obtain ⟨hslot', hptr'⟩ := hs.arena.slot_eq hg hq
  obtain rfl : p' = p := by rwa [hslot, VarSet.mem_singleton] at hp'
  obtain rfl : q' = q := by rwa [hslot', VarSet.mem_singleton] at hq'
  rw [List.isChain_iff_forall_rel_of_append_cons_cons] at hl
  rcases hsplit with hsplit | hsplit
  · have heq := (hl hsplit).equatedSets hf hg halike
    exact (heq p' hp q' hq).alikeTo hs hptr hptr' hnp hnq
  · have heq := (hl hsplit).equatedSets hg hf halike.symm
    exact ((heq q' hq p' hp).alikeTo hs hptr' hptr hnq hnp).symm

/-- What holds at one end of a line holds at the other. -/
theorem Reaches.alikeTo (h : s.Reaches l pos n x y) (hl : l.IsChain (s.Reconciled · ·))
    (hs : s.WellFormed) (hf : s.arena.function? x = some f) (hg : s.arena.function? y = some g)
    (hp : p ∈ pos.slot f) (hq : q ∈ pos.slot g) :
    pos.Alike f g ∧ s.arena.AlikeTo s.solver.solve n p q := by
  induction h generalizing g q with
  | refl =>
    obtain rfl := Option.some.inj (hf.symm.trans hg)
    rw [(hs.arena.slot_eq hf hp).1, VarSet.mem_singleton] at hq
    subst hq
    exact ⟨.refl pos f, Eq.refl _⟩
  | @tail y z _ hyz ih =>
    obtain ⟨-, f', g', hf', hg', halike, p', hp', -⟩ := id hyz
    obtain rfl := Option.some.inj (hg.symm.trans hg')
    obtain ⟨hfirst, hsame⟩ := ih hf' hp'
    exact ⟨hfirst.trans halike, hsame.trans (hyz.alikeTo hl hs hf' hg hp' hq)⟩

/-! ## From a definition to a declaration -/

section

variable {sol : Solution} {i : Nat}

theorem agree_returns (hs : s.WellFormed) (h : s.arena.Agree sol x y)
    (hf : s.arena.function? x = some f) (hg : s.arena.function? y = some g)
    (hp : p ∈ f.returns) (hq : q ∈ g.returns) : s.arena.ReturnsAgree sol p q := by
  have hslot := hs.arena.returns_eq hf hp
  have hslot' := hs.arena.returns_eq hg hq
  have hreturns := (h f g hf hg).1
  rw [hslot, hslot'] at hreturns
  exact hreturns p q (Eq.refl _) (Eq.refl _)

theorem agree_param (hs : s.WellFormed) (h : s.arena.Agree sol x y)
    (hf : s.arena.function? x = some f) (hg : s.arena.function? y = some g)
    (hlen : f.params.length = g.params.length) (hp : p ∈ (Position.param i).slot f)
    (hq : q ∈ (Position.param i).slot g) : s.arena.ParamsAgree sol p q := by
  have hparams := (h f g hf hg).2 hlen _ (Position.slots_mem_zip hp hq)
  rw [(hs.arena.slot_eq hf hp).1, (hs.arena.slot_eq hg hq).1] at hparams
  exact hparams p q (Eq.refl _) (Eq.refl _)

end

/-- Every level of the parameter that `first` has at `i` is linked to one of `last`. -/
def ParamArrives (s : Session) (l : List VarId) (i : Nat) (first last : VarId) : Prop :=
  ∃ g, s.arena.function? first = some g ∧ ∃ e ∈ (Position.param i).slot g,
    s.arena.levels e ≠ [] ∧ s.Reaches l (.param i) (s.arena.levels e).length first last

/-- Every level of what `last` returns is linked to one of `first`. -/
def ReturnArrives (s : Session) (l : List VarId) (first last : VarId) : Prop :=
  ∃ g, s.arena.function? last = some g ∧ ∃ q ∈ g.returns,
    s.Reaches l .ret (s.arena.levels q).length first last

theorem Reaches.exists_slot (h : s.Reaches l pos n x y) (hg : s.arena.function? y = some g)
    (hq : q ∈ pos.slot g) : ∃ f, s.arena.function? x = some f ∧ ∃ p, p ∈ pos.slot f := by
  rcases h.cases_head with rfl | ⟨z, ⟨-, f, -, hf, -, -, p, hp, -⟩, -⟩
  · exact ⟨g, hg, q, hq⟩
  · exact ⟨f, hf, p, hp⟩

theorem Reaches.mem_or_eq (h : s.Reaches l pos n x y) : x ∈ l ∨ x = y := by
  rcases h.cases_head with he | ⟨z, hxz, -⟩
  · exact .inr he
  · obtain ⟨⟨pre, post, hl | hl⟩, -⟩ := hxz <;> simp [hl]

/-- A requirement that arrives is met, if the definition agrees with where it starts. -/
theorem ParamArrives.covers {i : Nat} {definition first last : VarId}
    (h : s.ParamArrives l i first last) (hs : s.WellFormed) (hl : l.IsChain (s.Reconciled · ·))
    (hagree : ∀ {n}, s.Reaches l (.param i) n first last →
      s.arena.Agree s.solver.solve definition first)
    (hf : s.arena.function? definition = some f) (hg : s.arena.function? last = some g)
    (hlen : f.params.length = g.params.length) (hp : p ∈ (Position.param i).slot f)
    (hq : q ∈ (Position.param i).slot g) (htame : s.arena.Tame s.solver.solve p q) :
    s.arena.Covers s.solver.solve q p := by
  obtain ⟨e, he, r, hr, hlevels, hreach⟩ := h
  obtain ⟨halike, hsame⟩ := hreach.alikeTo hl hs he hg hr hq
  have hparams := agree_param hs (hagree hreach) hf he (hlen.trans (Eq.symm halike)) hp hr
  refine hsame.covers (Nat.le_refl _) hlevels (hparams ⟨htame.1, fun hwild => htame.2 ?_⟩)
  obtain ⟨a, ha, hwild⟩ := Arena.hasWildLevel_iff.1 hwild
  obtain ⟨b, hb, he⟩ := hsame.exists_level (Nat.le_refl _) ha
  exact Arena.hasWildLevel_iff.2 ⟨b, hb, he.trans hwild⟩

/-- A wild return of the definition makes every level wild that the last declaration returns, if
returns arrive there. -/
theorem ReturnArrives.wild {definition first last : VarId} (h : s.ReturnArrives l first last)
    (hs : s.WellFormed) (hl : l.IsChain (s.Reconciled · ·))
    (hagree : ∀ {n}, s.Reaches l .ret n first last →
      s.arena.Agree s.solver.solve definition first)
    (hf : s.arena.function? definition = some f) (hg : s.arena.function? last = some g)
    (hp : p ∈ f.returns) (hq : q ∈ g.returns)
    (hwild : s.arena.hasWildLevel s.solver.solve p) :
    ∀ a ∈ s.arena.levels q, s.solver.solve.category a = .wild := by
  obtain ⟨g', hg', q', hq', hreach⟩ := h
  obtain rfl := Option.some.inj (hg.symm.trans hg')
  rw [hs.arena.returns_eq hg hq, VarSet.mem_singleton] at hq'
  subst hq'
  obtain ⟨e, he, r, hr⟩ := hreach.exists_slot hg hq
  have hreturns := agree_returns hs (hagree hreach) hf he hp hr
  have hsame := (hreach.alikeTo hl hs he hg hr hq).2
  intro a ha
  obtain ⟨b, hb, hab⟩ := Arena.AlikeTo.exists_level (Eq.symm hsame) (Nat.le_refl _) ha
  rw [← hab]
  exact hreturns.wild hwild b hb

section

variable {units : List TranslationUnit} {options : Options} {outcome : Outcome}

/-- Neighbours among the bodiless variants of a name stay reconciled to the end. -/
theorem Phases.reconciled (phases : Phases units (.new options) outcome s)
    (hmerge : options.mergeDeclarations) (name : String) :
    (bodiless s.arena (s.variants name)).IsChain (s.Reconciled · ·) := by
  have hoptions : phases.followed.options = options := by
    rw [phases.follows.options, phases.indexes.options]
    rfl
  have hlinked := ((link_merges name phases.followed).of_ends phases.link).2
    (by rw [hoptions, hmerge])
  rw [phases.records.arena, phases.records.variants]
  exact hlinked.imp fun _ _ h => h.reconciled.records phases.settles

/-- Every global function declaration stays noted to the end. -/
theorem Phases.noted {d : Decl} (phases : Phases units (.new options) outcome s)
    (hd : IsGlobal units d) : s.Noted d.anchor d.name := by
  obtain ⟨u, hu, ids, hids, id, hid, hdecl, hglobal⟩ := hd
  have hfollows := phases.follows.trans phases.records.creates.visits.toFollows
  have hnoted := (phases.notedAll hu hids).noted id hid d hdecl hglobal
  exact hnoted.indexes phases.wellFormed_indexed hfollows.indexes

/-- Every function with a body is registered to the end. -/
theorem Phases.complete (phases : Phases units (.new options) outcome s) : s.Complete := by
  have hindexed := ((indexUnits_meets units (wellFormed_new options)).of_ends phases.index).2
  have hfollows := phases.follows.trans phases.records.creates.visits.toFollows
  have hcomplete := hindexed.2 (complete_new options)
  exact hfollows.addsPointers.complete phases.wellFormed_indexed hfollows.toExtends hcomplete

/-- Where no declaration is linked with a definition, repair goes to the bodiless variants of its
name. -/
theorem pairs_of_unpaired {sol : Solution} {definition declaration : VarId}
    {e : FunctionKey × VarSet} (he : e ∈ s.pairing.definitions)
    (hleast : s.arena.leastSafe? sol e.2 = some definition) (hnone : s.pairing.paired? e.1 = none)
    (hf : s.arena.function? definition = some f)
    (hmem : declaration ∈ bodiless s.arena (s.variants f.name)) :
    s.Pairs sol definition declaration := by
  refine ⟨e, he, hleast, ?_⟩
  unfold declarationsPaired
  simp only [hnone, Arena.getElem?_of_function? hf, Option.map_some, Option.getD_some]
  exact List.mem_append_left _ hmem

/-- A pair that repair reconciles agrees once nothing is left to repair. -/
theorem Pairs.agree {sol : Solution} {definition declaration : VarId}
    (h : s.Pairs sol definition declaration) (hne : declaration ≠ definition)
    (hagreed : s.Agreed sol) : s.arena.Agree sol definition declaration := by
  obtain ⟨e, he, hleast, hmem⟩ := h
  exact hagreed e he definition hleast declaration hmem hne

/-- A definition that was indexed is registered. What it requires of its parameters, and that its
return is wild, reaches a bodiless declaration, if the declaration is linked to one that repair
reconciles with the definition; it is that one itself where none is linked with the definition. -/
theorem analyse_declarations_follow (h : (analyse units).Ends (.new options) outcome s)
    (hmerge : options.mergeDeclarations) (hconv : outcome.settled.converged)
    {anchor : Anchor} {d : Decl} {definition declaration : VarId}
    (hdefined : definition ∈ s.storedAt anchor)
    (hf : s.arena.function? definition = some f) (hbody : f.hasBody)
    (hd : IsGlobal units d) (hname : d.name = f.name)
    (hdeclared : declaration ∈ s.storedAt d.anchor)
    (hg : s.arena.function? declaration = some g) (hbodiless : ¬ g.hasBody) :
    s.Registered definition ∧
    (∀ e ∈ s.pairing.definitions, s.arena.leastSafe? outcome.settled.sol e.2 = some definition →
      s.pairing.paired? e.1 = none → s.Pairs outcome.settled.sol definition declaration) ∧
    ∀ first, s.Pairs outcome.settled.sol definition first →
      (∀ i, s.ParamArrives (bodiless s.arena (s.variants d.name)) i first declaration →
        f.params.length = g.params.length →
        ∀ p ∈ (Position.param i).slot f, ∀ q ∈ (Position.param i).slot g,
          s.arena.Tame outcome.settled.sol p q → s.arena.Covers outcome.settled.sol q p) ∧
      (s.ReturnArrives (bodiless s.arena (s.variants d.name)) first declaration →
        ∀ p ∈ f.returns, ∀ q ∈ g.returns, s.arena.hasWildLevel outcome.settled.sol p →
          ∀ a ∈ s.arena.levels q, outcome.settled.sol.category a = .wild) := by
  obtain ⟨phases⟩ := exists_phases h
  have hs := phases.wellFormed
  have hchain := phases.reconciled hmerge d.name
  have hsol := phases.isSettled.solution
  have hagreed := (phases.isSettled.atRest hconv).agreed
  have hmem : declaration ∈ bodiless s.arena (s.variants d.name) := by
    refine List.mem_filter.2 ⟨?_, by simpa [hg] using hbodiless⟩
    exact (phases.noted hd).variant declaration hdeclared (Arena.isFunction_iff.2 ⟨g, hg⟩)
  refine ⟨phases.complete anchor definition hdefined f hf hbody, fun e he hleast hnone =>
    pairs_of_unpaired he hleast hnone hf (hname ▸ hmem), fun first hpairs => ?_⟩
  have hagree : ∀ {pos n},
      s.Reaches (bodiless s.arena (s.variants d.name)) pos n first declaration →
        s.arena.Agree outcome.settled.sol definition first := by
    intro pos n hreach
    refine hpairs.agree ?_ hagreed
    rintro rfl
    have hfirst : first ∈ bodiless s.arena (s.variants d.name) := by
      rcases hreach.mem_or_eq with hin | rfl
      · exact hin
      · exact hmem
    have hno := (List.mem_filter.1 hfirst).2
    simp [hf, hbody] at hno
  refine ⟨fun i harrives hlen p hp q hq => ?_, fun harrives p hp q hq => ?_⟩
  · rw [hsol]
    refine harrives.covers hs hchain ?_ hf hg hlen hp hq
    exact fun hreach => hsol ▸ hagree hreach
  · rw [hsol]
    refine harrives.wild hs hchain ?_ hf hg hp hq
    exact fun hreach => hsol ▸ hagree hreach

/-! ## A declaration that stands between -/

def sharedSignature : Signature :=
  ⟨.pointer .int, [.pointer .int, .pointer (.builtin "char")], false, true⟩

/-- It subscripts its first parameter and returns the second one as a pointer to something else. -/
def demandingFunction : Decl :=
  ⟨"f", ⟨"a.c", 3, 9⟩, false, .function sharedSignature [3, 4] true (some [.expr 2, .ret (some 4)])⟩

def distantFunction : Decl :=
  ⟨"f", ⟨"c.c", 1, 9⟩, false, .function sharedSignature [0, 1] true none⟩

def demandingUnit : TranslationUnit :=
  { id := 0
    file := "a.c"
    decls := #[
      ⟨"p", ⟨"a.c", 1, 1⟩, false, .param (.pointer .int) (some 2) none⟩,
      ⟨"c", ⟨"a.c", 1, 5⟩, false, .param (.pointer (.builtin "char")) (some 2) none⟩,
      ⟨"f", ⟨"a.c", 1, 9⟩, false, .function sharedSignature [0, 1] true none⟩,
      ⟨"p", ⟨"a.c", 3, 1⟩, false, .param (.pointer .int) (some 5) none⟩,
      ⟨"c", ⟨"a.c", 3, 5⟩, false, .param (.pointer (.builtin "char")) (some 5) none⟩,
      demandingFunction]
    exprs := #[.declRef 3, .intLiteral 3, .subscript 0 1, .declRef 4, .cast (.pointer .int) 3]
    topLevel := [2, 5] }

def bareUnit : TranslationUnit :=
  let signature : Signature := ⟨.pointer .int, [], false, false⟩
  { id := 1
    file := "b.c"
    decls := #[⟨"f", ⟨"b.c", 1, 1⟩, false, .function signature [] true none⟩]
    exprs := #[]
    topLevel := [0] }

/-- The prototype that yet another unit sees. -/
def distantUnit : TranslationUnit :=
  { id := 2
    file := "c.c"
    decls := #[
      ⟨"p", ⟨"c.c", 1, 1⟩, false, .param (.pointer .int) (some 2) none⟩,
      ⟨"c", ⟨"c.c", 1, 5⟩, false, .param (.pointer (.builtin "char")) (some 2) none⟩,
      distantFunction]
    exprs := #[]
    topLevel := [2] }

def outline (s : Session) (v : VarId) : Option (String × Bool × VarSet × List VarSet) :=
  (s.arena.function? v).map fun f => (f.name, f.hasBody, f.returns, f.params)

theorem exists_of_outline {v : VarId} {name : String} {b : Bool} {r : VarSet}
    {slots : List VarSet} (h : s.outline v = some (name, b, r, slots)) :
    ∃ f, s.arena.function? v = some f ∧ f.name = name ∧ f.hasBody = b ∧ f.returns = r ∧
      f.params = slots := by
  obtain ⟨f, hf, he⟩ := Option.map_eq_some_iff.1 h
  simp only [Prod.mk.injEq] at he
  exact ⟨f, hf, he⟩

/-- The prototype of another unit learns of the subscript and of the wild return. -/
theorem analyse_declarations_follow_distantUnit :
    ∃ outcome s, (analyse [demandingUnit, distantUnit]).Ends (.new .default) outcome s ∧
      s.Registered 7 ∧
      s.arena.leastSafeLevel? outcome.settled.sol 5 = some .arr ∧
      s.arena.Covers outcome.settled.sol 9 5 ∧
      s.arena.hasWildLevel outcome.settled.sol 4 ∧
      ∀ a ∈ s.arena.levels 8, outcome.settled.sol.category a = .wild := by
  obtain ⟨outcome, s, h, hlook⟩ := exists_ends (x := analyse [demandingUnit, distantUnit])
    (s := .new .default)
    (g := fun o s => o.settled.converged && s.Pairs o.settled.sol 7 3 &&
      bodiless s.arena (s.variants distantFunction.name) = [3, 11] &&
      7 ∈ s.storedAt demandingFunction.anchor && 11 ∈ s.storedAt distantFunction.anchor &&
      s.outline 3 = some ("f", false, .singleton 0, [.singleton 1, .singleton 2]) &&
      s.outline 7 = some ("f", true, .singleton 4, [.singleton 5, .singleton 6]) &&
      s.outline 11 = some ("f", false, .singleton 8, [.singleton 9, .singleton 10]) &&
      [0, 1, 8, 9].map s.arena.levels = [[0], [1], [6], [7]] &&
      s.arena.leastSafeLevel? o.settled.sol 5 = some .arr &&
      [4, 5, 9].map (s.arena.hasWildLevel o.settled.sol) = [true, false, false])
    (b := true) (by decide +kernel)
  simp only [Bool.and_eq_true, decide_eq_true_eq, List.map_cons, List.map_nil, List.cons.injEq,
    and_true] at hlook
  obtain ⟨⟨⟨⟨⟨⟨⟨⟨⟨⟨hconv, hpairs⟩, hline⟩, hdefined⟩, hdeclared⟩, he⟩, hf⟩, hg⟩, hlevels⟩, harr⟩,
    hwild⟩ := hlook
  obtain ⟨e, he, -, -, hereturns, heparams⟩ := exists_of_outline he
  obtain ⟨f, hf, hname, hbody, hfreturns, hfparams⟩ := exists_of_outline hf
  obtain ⟨g, hg, -, hbodiless, hgreturns, hgparams⟩ := exists_of_outline hg
  have hglobal : IsGlobal [demandingUnit, distantUnit] distantFunction :=
    ⟨distantUnit, List.mem_cons_of_mem _ List.mem_cons_self, _, rfl, 2, by decide +kernel, rfl, rfl⟩
  obtain ⟨hregistered, -, hfollow⟩ := analyse_declarations_follow h rfl hconv hdefined hf hbody
    hglobal (Eq.symm hname) hdeclared hg (by simp [hbodiless])
  obtain ⟨hparam, hreturn⟩ := hfollow 3 hpairs
  rw [hline] at hparam hreturn
  -- the two prototypes are neighbours, with one level each at every place
  have hreach : ∀ pos n p q, pos.Alike e g → p ∈ pos.slot e → q ∈ pos.slot g →
      n ≤ (s.arena.levels p).length → n ≤ (s.arena.levels q).length →
      s.Reaches [3, 11] pos n 3 11 := fun pos n p q halike hp hq hn hn' =>
    .single ⟨⟨[], [], .inl rfl⟩, e, g, he, hg, halike, p, hp, q, hq, hn, hn'⟩
  have hp : 5 ∈ (Position.param 0).slot f := by simp [Position.slot, hfparams]
  have hq : 9 ∈ (Position.param 0).slot g := by simp [Position.slot, hgparams]
  have hr : 1 ∈ (Position.param 0).slot e := by simp [Position.slot, heparams]
  refine ⟨outcome, s, h, hregistered, harr, ?_, hwild.1, ?_⟩
  · refine hparam 0 ⟨e, he, 1, hr, by simp [hlevels], ?_⟩ (by simp [hfparams, hgparams]) 5 hp 9 hq
      ⟨by simp [hwild], by simp [hwild]⟩
    exact hreach _ _ 1 9 (by simp [Position.Alike, heparams, hgparams]) hr hq (by simp)
      (by simp [hlevels])
  · refine hreturn ⟨g, hg, 8, by simp [hgreturns], ?_⟩ 4 (by simp [hfreturns]) 8
      (by simp [hgreturns]) hwild.1
    exact hreach .ret _ 0 8 trivial (by simp [Position.slot, hereturns])
      (by simp [Position.slot, hgreturns]) (by simp [hlevels]) (by simp)

/-- With the bare declaration between them the two prototypes are no neighbours. The definition
and its own prototype agree, the distant prototype stays as it was, and the analysis converges. -/
theorem analyse_stops_at_bareUnit :
    ∃ outcome s,
      (analyse [demandingUnit, bareUnit, distantUnit]).Ends (.new .default) outcome s ∧
      Options.default.mergeDeclarations ∧ outcome.settled.converged ∧
      ∃ d d', IsGlobal [demandingUnit, bareUnit, distantUnit] d ∧
        IsGlobal [demandingUnit, bareUnit, distantUnit] d' ∧ d.name = d'.name ∧
        ∃ definition ∈ s.storedAt d.anchor, ∃ declaration ∈ s.storedAt d'.anchor, ∃ f g,
          s.arena.function? definition = some f ∧ f.hasBody ∧
          s.arena.function? declaration = some g ∧ ¬ g.hasBody ∧
          f.params.length = g.params.length ∧
          ∃ p ∈ (Position.param 0).slot f, ∃ q ∈ (Position.param 0).slot g,
            s.arena.Tame outcome.settled.sol p q ∧
            s.arena.leastSafeLevel? outcome.settled.sol p = some .arr ∧
            s.arena.leastSafeLevel? outcome.settled.sol q = some .ptr ∧
            ¬ s.arena.Covers outcome.settled.sol q p := by
  obtain ⟨outcome, s, h, hlook⟩ := exists_ends
    (x := analyse [demandingUnit, bareUnit, distantUnit]) (s := .new .default)
    (g := fun o s => o.settled.converged && 7 ∈ s.storedAt demandingFunction.anchor &&
      13 ∈ s.storedAt distantFunction.anchor &&
      s.outline 7 = some ("f", true, .singleton 4, [.singleton 5, .singleton 6]) &&
      s.outline 13 = some ("f", false, .singleton 10, [.singleton 11, .singleton 12]) &&
      [5, 11].map (s.arena.leastSafeLevel? o.settled.sol) = [some .arr, some .ptr] &&
      [5, 11].map (s.arena.hasWildLevel o.settled.sol) = [false, false])
    (b := true) (by decide +kernel)
  simp only [Bool.and_eq_true, decide_eq_true_eq, List.map_cons, List.map_nil, List.cons.injEq,
    and_true] at hlook
  obtain ⟨⟨⟨⟨⟨⟨hconv, hstored⟩, hstored'⟩, hf⟩, hg⟩, ⟨harr, hptr⟩⟩, hwild⟩ := hlook
  obtain ⟨f, hf, -, hbody, -, hfparams⟩ := exists_of_outline hf
  obtain ⟨g, hg, -, hbodiless, -, hgparams⟩ := exists_of_outline hg
  have hdefined : IsGlobal [demandingUnit, bareUnit, distantUnit] demandingFunction :=
    ⟨demandingUnit, List.mem_cons_self, _, rfl, 5, by decide +kernel, rfl, rfl⟩
  have hdeclared : IsGlobal [demandingUnit, bareUnit, distantUnit] distantFunction :=
    ⟨distantUnit, List.mem_of_getElem? (i := 2) rfl, _, rfl, 2, by decide +kernel, rfl, rfl⟩
  refine ⟨outcome, s, h, rfl, hconv, demandingFunction, distantFunction, hdefined, hdeclared, rfl,
    7, hstored, 13, hstored', f, g, hf, hbody, hg, by simp [hbodiless],
    by simp [hfparams, hgparams], 5, by simp [Position.slot, hfparams], 11,
    by simp [Position.slot, hgparams], ⟨by simp [hwild], by simp [hwild]⟩, harr, hptr, ?_⟩
  exact fun hcovers => absurd (hcovers _ _ hptr harr) (by decide)

end

end Session

end CheckedPointers
