import CheckedPointers.Proofs.Analysis.Agreement
import CheckedPointers.Proofs.Analysis.Convergence
import CheckedPointers.Proofs.Analysis.Progress
import CheckedPointers.Proofs.Session.Spread

/-!
The bound on the rounds. A run that the default bound stops has raised something in each of
sixty-four rounds, and there are programs for which that happens: a function that passes its
parameters on to itself one place earlier raises them one after another, one a round.
-/
namespace CheckedPointers

open Op TranslationUnit

def Frame.same : Frame := ⟨Eq, fun _ => rfl, Eq.trans⟩

namespace Session

variable {s t w : Session} {u : TranslationUnit} {e : ExprId} {units : List TranslationUnit}
  {outcome : Outcome}

/-! ## What the bound stops -/

/-- Under the default options a run that has not converged has made sixty-four rounds after linking,
and every one of them has raised some atom for good. So it has at least twenty-two atoms; a run with
fewer converges. -/
theorem analyse_converges_or_climbs (h : (analyse units).Ends (.new .default) outcome s) :
    (s.solver.cells.size < 22 → outcome.settled.converged = true) ∧
    (outcome.settled.converged = false → outcome.settled.rounds = 64 ∧
      ∃ linked, (linkUnits units).Ends (.new .default) ⟨⟩ linked ∧ linked.Rounds 64 s ∧
        linked.solver.solve.height + 64 ≤ s.solver.solve.height) := by
  obtain ⟨p⟩ := exists_phases h
  have hs : (Session.new .default).WellFormed := wellFormed_new .default
  have hlinked := (p.extends_linked hs).wellFormed hs
  have hclimbs : outcome.settled.converged = false → outcome.settled.rounds = 64 ∧
      p.linked.Rounds 64 s := p.rounds_of_unconverged hs
  constructor
  · intro hsize
    by_contra hconv
    have hrounds := (hclimbs (by simpa using hconv)).2
    have hle := hrounds.le hlinked
    rw [← (hrounds.records hlinked).size] at hle
    omega
  · intro hconv
    obtain ⟨he, hrounds⟩ := hclimbs hconv
    exact ⟨he, p.linked, p.ends_linkUnits, hrounds, hrounds.height hlinked⟩

theorem analyse_converges_or_climbs_subscriptedParameter :
    ∃ outcome s, (analyse [subscriptedParameter]).Ends (.new .default) outcome s ∧
      s.solver.cells.size < 22 ∧ outcome.settled.converged = true := by
  obtain ⟨outcome, s, h, hsize⟩ := exists_ends (x := analyse [subscriptedParameter])
    (s := .new .default) (g := fun _ s => s.solver.cells.size) (b := 4) (by decide +kernel)
  have hlt : s.solver.cells.size < 22 := by omega
  exact ⟨outcome, s, h, hlt, (analyse_converges_or_climbs h).1 hlt⟩

/-! ## Calls with the names of parameters -/

theorem denoteParam_same (owner : DeclId) (i : Nat) (s : Session) :
    Meets .same (denoteParam u owner i .body) s fun _ _ => True := by
  apply Meets.bind_lift
  intro definition _
  split
  · apply Meets.bind_lift
    intro d _
    split
    · exact Meets.bind_get (Meets.bind_lift fun _ _ => Meets.pure trivial)
    · exact Meets.pure trivial
  · exact Meets.bind_lift fun _ _ => Meets.unresolved

def isPlain (u : TranslationUnit) (e : ExprId) : Bool :=
  match u.expr e with
  | .ok (.intLiteral _) => true
  | .ok (.declRef d) =>
    match u.decl d with
    | .ok decl => decl.isParam
    | .error _ => false
  | _ => false

def isLeaf (u : TranslationUnit) (e : ExprId) : Bool :=
  match u.expr e with
  | .ok (.intLiteral _) | .ok (.declRef _) => true
  | _ => false

theorem isFunction_of_isParam {d : Decl} (h : d.isParam) : d.isFunction = false := by
  unfold Decl.isParam at h
  unfold Decl.isFunction
  split at h
  · next hkind => rw [hkind]
  · cases h

/-- Inside a body a number denotes nothing and a parameter what is there already. -/
theorem denote_same (h : isPlain u e) (s : Session) :
    Meets .same (denote u e .body) s fun _ _ => True := by
  apply Meets.bind_requireOpen
  intro o _
  rw [expressionLimit, denoteWithin]
  apply Meets.bind_lift
  intro x hx
  rw [isPlain, hx] at h
  cases x with
  | intLiteral k => exact Meets.pure trivial
  | declRef d =>
    apply Meets.bind_requireOpen
    intro _ _
    apply Meets.bind_lift
    intro decl hd
    have hparam : decl.isParam := by simpa only [hd] using h
    apply Meets.bind_get
    simp only [isFunction_of_isParam hparam, hparam, Bool.false_eq_true, if_true, if_false]
    split
    · exact Meets.pure trivial
    · apply Meets.bind_lift
      intro position _
      split
      · exact denoteParam_same _ _ s
      · exact Meets.unresolved
  | _ => cases h

/-- Arguments that are numbers or parameters are looked up without any change to the session. -/
theorem denoteAll_same {es : List ExprId} {values : List VarSet} (h : ∀ e ∈ es, isPlain u e)
    (hends : (es.mapM (denote u · .body)).Ends s values t) :
    s = t ∧ List.Forall₂ (fun e set => (denote u e .body).Ends s set s) es values := by
  induction es generalizing s values with
  | nil =>
    obtain ⟨rfl, rfl⟩ := ends_pure.1 hends
    exact ⟨rfl, .nil⟩
  | cons e rest ih =>
    rw [List.mapM_cons] at hends
    obtain ⟨set, w, he, hends⟩ := ends_bind.1 hends
    obtain ⟨sets, z, hrest, hends⟩ := ends_bind.1 hends
    obtain ⟨rfl, rfl⟩ := ends_pure.1 hends
    obtain rfl : s = w := ((denote_same (h e List.mem_cons_self) s).of_ends he).1
    obtain ⟨rfl, hall⟩ := ih (fun e' he' => h e' (List.mem_cons_of_mem e he')) hrest
    exact ⟨rfl, .cons he hall⟩

/-- Names and numbers are followed without effect. -/
theorem followAll_leaves {view : Viewpoint} {n : Nat} {es : List ExprId}
    (h : ∀ e ∈ es, isLeaf u e) : (es.forM (followWithin u view (n + 1))).Ends s ⟨⟩ s := by
  induction es with
  | nil => rfl
  | cons e rest ih =>
    have hfirst : (followWithin u view (n + 1) e).Ends s ⟨⟩ s := by
      have he := h e List.mem_cons_self
      unfold isLeaf at he
      rw [followWithin]
      split at he
      · next k hx => rw [hx]; rfl
      · next d hx => rw [hx]; rfl
      · cases he
    exact ends_bind.2 ⟨⟨⟩, s, hfirst, ih fun e' he' => h e' (List.mem_cons_of_mem e he')⟩

/-- Arguments that denote what is there already are only equated with the slots. -/
theorem passArguments_adds {view : Viewpoint} {slots : List VarSet} {args : List ExprId}
    {values : List VarSet} (hs : s.WellFormed) (hslots : ∀ slot ∈ slots, Holds slot s)
    (hargs : List.Forall₂ (fun arg set => Holds set s ∧ Replays .visits (denote u arg view) set s)
      args values) (hlen : args.length ≤ slots.length) :
    ∃ t, (passArguments u view slots args).Ends s ⟨⟩ t ∧ s.Records t ∧
      (∀ e ∈ slots.zip values, t.EquatedSets e.1 e.2) ∧
      ∀ c ∈ t.solver.constraints, c ∈ s.solver.constraints ∨
        ∃ e ∈ slots.zip values, ∃ a ∈ e.1, ∃ b ∈ e.2, EquationOf s.arena a b c := by
  induction args generalizing s slots values with
  | nil =>
    obtain rfl := List.forall₂_nil_left_iff.1 hargs
    refine ⟨s, ?_, .refl s, ?_, fun c hc => .inl hc⟩
    · rw [passArguments]
      rfl
    · intro e he
      rw [List.zip_nil_right] at he
      cases he
  | cons arg rest ih =>
    obtain ⟨set, values, hfirst, hrest, rfl⟩ := List.forall₂_cons_left_iff.1 hargs
    cases slots with
    | nil => exact absurd hlen (Nat.not_succ_le_zero _)
    | cons slot slots =>
      have hslot := hslots slot List.mem_cons_self
      have hends : FailsOnly (fun _ => False) (equateSets slot set) s :=
        equateSets_failsOnly hs hslot hfirst.1
      obtain ⟨_, t, ht⟩ := hends.ends
      obtain ⟨hst, hequated⟩ := (equateSets_meets slot set s).of_ends ht
      have hst : s.Records t := hst
      have hadds := ((equateSets_adds slot set s).of_ends ht).2
      obtain ⟨w, hw, htw, hall, hrestAdds⟩ := ih (hst.creates.wellFormed hs)
        (fun y hy => (hslots y (List.mem_cons_of_mem slot hy)).extends hst.creates.toExtends)
        (hrest.imp fun _ _ h => ⟨h.1.extends hst.creates.toExtends, h.2.later hst.creates.visits⟩)
        (Nat.le_of_succ_le_succ hlen)
      refine ⟨w, ?_, hst.trans htw, ?_, ?_⟩
      · rw [passArguments]
        exact ends_bind.2 ⟨set, s, hfirst.2 s (.refl s), ends_bind.2 ⟨⟨⟩, t, ht, hw⟩⟩
      · rw [List.zip_cons_cons]
        exact List.forall_mem_cons.2 ⟨hequated.records htw, hall⟩
      · intro c hc
        rw [List.zip_cons_cons]
        rcases hrestAdds c hc with hc | ⟨e, he, a, ha, b, hb, hab⟩
        · exact (hadds c hc).imp_right fun h => ⟨(slot, set), List.mem_cons_self, h⟩
        · exact .inr ⟨e, List.mem_cons_of_mem _ he, a, ha, b, hb, hst.arena ▸ hab⟩

/-! ## Linking one unit -/

/-- Linking records nothing where no anchor is shared, no name has two bodiless variants and every
body was seen. -/
theorem link_adds_nothing (hshared : ∀ set ∈ s.index.values, set.size ≤ 1)
    (hbodiless : ∀ variants ∈ s.globals.values, bodiless s.arena variants = [])
    (hnames : s.unresolvedNames = []) : Adds (fun _ => False) link s := by
  apply Adds.bind_get
  dsimp only
  split
  · exact Meets.fault
  · have hnone : (s.index.values.filter fun set => 1 < set.size) = [] := by
      rw [List.filter_eq_nil_iff]
      exact fun set hset hlt => absurd (of_decide_eq_true hlt) (Nat.not_lt.2 (hshared set hset))
    rw [hnone, hnames]
    have hmerge : ∀ t, s.Records t → Adds (fun _ => False) mergeDeclarations t := by
      intro t hst
      have hall : ∀ sets ⊆ s.globals.values, ∀ w, Adds (fun _ => False)
          (sets.mapM fun variants => chain reconcile (bodiless s.arena variants)) w := by
        intro sets
        induction sets with
        | nil => exact fun _ w => .pure
        | cons x rest ih =>
          intro hsub w
          rw [List.mapM_cons, hbodiless x (hsub List.mem_cons_self)]
          apply Adds.bind .pure
          intro _ z _
          exact (ih (List.subset_of_cons_subset hsub) z).bind fun _ _ _ => .pure
      have hglobals : t.globals = s.globals := by rw [hst.only]
      apply Adds.bind_get
      rw [hglobals, hst.arena]
      split
      · exact (hall _ (List.Subset.refl _) t).bind fun _ _ _ => .pure
      · exact .pure
    apply Adds.bind .pure
    intro _ t hst
    apply (hmerge t hst).bind
    intro _ w _
    exact Adds.bind .pure fun _ z _ => Adds.bind_get .pure

/-! ## Parameters passed on -/

def shiftedParam (i : Nat) : Decl :=
  ⟨"p", ⟨"a", 2, i⟩, false, .param (.pointer .int) (some 0) none⟩

def shiftedParams : List DeclId :=
  [1, 2, 3, 4, 5, 6, 7, 8, 9, 10, 11, 12, 13, 14, 15, 16, 17, 18, 19, 20, 21, 22, 23, 24, 25, 26,
   27, 28, 29, 30, 31, 32, 33, 34, 35, 36, 37, 38, 39, 40, 41, 42, 43, 44, 45, 46, 47, 48, 49,
   50, 51, 52, 53, 54, 55, 56, 57, 58, 59, 60, 61, 62, 63, 64]

def shiftingFunction : Decl :=
  let signature : Signature :=
    ⟨.builtin "void", List.replicate 64 (.pointer .int), false, true⟩
  ⟨"f", ⟨"a", 1, 1⟩, false,
    .function signature shiftedParams true (some [.expr 66, .expr 68])⟩

/-- Every parameter but the first, and then a zero. -/
def shiftedArgs : List ExprId :=
  [2, 3, 4, 5, 6, 7, 8, 9, 10, 11, 12, 13, 14, 15, 16, 17, 18, 19, 20, 21, 22, 23, 24, 25, 26,
   27, 28, 29, 30, 31, 32, 33, 34, 35, 36, 37, 38, 39, 40, 41, 42, 43, 44, 45, 46, 47, 48, 49,
   50, 51, 52, 53, 54, 55, 56, 57, 58, 59, 60, 61, 62, 63, 64, 67]

/-- A function of sixty-four parameters that subscripts the first one and passes each of the others
on to itself one place earlier. -/
def shifting : TranslationUnit :=
  { id := 0
    file := "a"
    decls := #[
      shiftingFunction, shiftedParam 1, shiftedParam 2, shiftedParam 3, shiftedParam 4,
      shiftedParam 5, shiftedParam 6, shiftedParam 7, shiftedParam 8, shiftedParam 9,
      shiftedParam 10, shiftedParam 11, shiftedParam 12, shiftedParam 13, shiftedParam 14,
      shiftedParam 15, shiftedParam 16, shiftedParam 17, shiftedParam 18, shiftedParam 19,
      shiftedParam 20, shiftedParam 21, shiftedParam 22, shiftedParam 23, shiftedParam 24,
      shiftedParam 25, shiftedParam 26, shiftedParam 27, shiftedParam 28, shiftedParam 29,
      shiftedParam 30, shiftedParam 31, shiftedParam 32, shiftedParam 33, shiftedParam 34,
      shiftedParam 35, shiftedParam 36, shiftedParam 37, shiftedParam 38, shiftedParam 39,
      shiftedParam 40, shiftedParam 41, shiftedParam 42, shiftedParam 43, shiftedParam 44,
      shiftedParam 45, shiftedParam 46, shiftedParam 47, shiftedParam 48, shiftedParam 49,
      shiftedParam 50, shiftedParam 51, shiftedParam 52, shiftedParam 53, shiftedParam 54,
      shiftedParam 55, shiftedParam 56, shiftedParam 57, shiftedParam 58, shiftedParam 59,
      shiftedParam 60, shiftedParam 61, shiftedParam 62, shiftedParam 63, shiftedParam 64]
    exprs := #[
      .declRef 0, .declRef 1, .declRef 2, .declRef 3, .declRef 4, .declRef 5, .declRef 6,
      .declRef 7, .declRef 8, .declRef 9, .declRef 10, .declRef 11, .declRef 12, .declRef 13,
      .declRef 14, .declRef 15, .declRef 16, .declRef 17, .declRef 18, .declRef 19, .declRef 20,
      .declRef 21, .declRef 22, .declRef 23, .declRef 24, .declRef 25, .declRef 26, .declRef 27,
      .declRef 28, .declRef 29, .declRef 30, .declRef 31, .declRef 32, .declRef 33, .declRef 34,
      .declRef 35, .declRef 36, .declRef 37, .declRef 38, .declRef 39, .declRef 40, .declRef 41,
      .declRef 42, .declRef 43, .declRef 44, .declRef 45, .declRef 46, .declRef 47, .declRef 48,
      .declRef 49, .declRef 50, .declRef 51, .declRef 52, .declRef 53, .declRef 54, .declRef 55,
      .declRef 56, .declRef 57, .declRef 58, .declRef 59, .declRef 60, .declRef 61, .declRef 62,
      .declRef 63, .declRef 64, .intLiteral 1, .subscript 1 65, .intLiteral 0,
      .call 0 shiftedArgs]
    topLevel := [0] }

def slotsFrom (v : VarId) : List VarSet := (List.range 64).map fun j => .singleton (v + j)

def shiftedValues : List VarSet := (slotsFrom 2).take 63 ++ [.empty]

/-- What the callee of the call denotes and what its arguments do, once everything before the call
was followed. -/
def beforeCall : Op (VarSet × List VarSet) := do
  indexUnits [shifting]
  enter shifting
  discard (attempt (follow shifting .body 66))
  let callee ← calleeVariables shifting .body 68 0
  let values ← shiftedArgs.mapM (denote shifting · .body)
  return (callee, values)

def shape (s : Session) (v : VarId) : Option (List Atom × Option VarId) :=
  (s.arena.pointer? v).map fun p => (p.atoms, p.function)

/-- The variables of the function and of the signature made for it: its parameter in place `j` has
the level `j`, and the one of the signature the level `64 + j`. -/
structure Shifted (s : Session) : Prop where
  definition : s.outline 65 = some ("f", true, .singleton 0, slotsFrom 1)
  declaration : s.outline 131 = some ("f", true, .singleton 66, slotsFrom 67)
  returns : s.shape 0 = some ([], none) ∧ s.shape 66 = some ([], none)
  params : ∀ j : Nat, j < 64 → s.shape (1 + j) = some ([j], none) ∧
    s.shape (67 + j) = some ([64 + j], none)
  definitions : s.pairing.definitions = [(shiftingFunction.key, .singleton 65)]
  declared : s.declarationsPaired shiftingFunction.key 65 = [131]

structure NothingToLink (s : Session) : Prop where
  shared : ∀ set ∈ s.index.values, set.size ≤ 1
  bodiless : ∀ variants ∈ s.globals.values, bodiless s.arena variants = []
  names : s.unresolvedNames = []

/-- The session before the call, by running it. -/
theorem exists_beforeCall :
    ∃ s, beforeCall.Ends (.new .default)
        (.singleton 131, shiftedValues) s ∧
      s.Shifted ∧ s.NothingToLink ∧ s.solver.constraints = #[.atLeast 0 .arr] ∧
      (s.arena.reachableFunction? 131).map FunctionVariable.params = some (slotsFrom 67) := by
  obtain ⟨found, s, h, hlook⟩ := exists_ends (x := beforeCall) (s := .new .default)
    (g := fun found s => found = (.singleton 131, shiftedValues) &&
      s.outline 65 = some ("f", true, .singleton 0, slotsFrom 1) &&
      s.outline 131 = some ("f", true, .singleton 66, slotsFrom 67) &&
      s.shape 0 = some ([], none) && s.shape 66 = some ([], none) &&
      (decide (∀ j : Nat, j < 64 → s.shape (1 + j) = some ([j], none) ∧
        s.shape (67 + j) = some ([64 + j], none))) &&
      s.pairing.definitions = [(shiftingFunction.key, .singleton 65)] &&
      s.declarationsPaired shiftingFunction.key 65 = [131] &&
      (decide (∀ set ∈ s.index.values, set.size ≤ 1)) &&
      (decide (∀ variants ∈ s.globals.values, bodiless s.arena variants = [])) &&
      s.unresolvedNames = [] && s.solver.constraints = #[.atLeast 0 .arr] &&
      (s.arena.reachableFunction? 131).map FunctionVariable.params = some (slotsFrom 67))
    (b := true) (by decide +kernel)
  simp only [Bool.and_eq_true, decide_eq_true_eq] at hlook
  obtain ⟨⟨⟨⟨⟨⟨⟨⟨⟨⟨⟨⟨rfl, hf⟩, hg⟩, h0⟩, h66⟩, hparams⟩, hdefs⟩, hdecls⟩, hshared⟩, hbodiless⟩,
    hnames⟩, hcs⟩, hreach⟩ := hlook
  have hshifted : s.Shifted := ⟨hf, hg, ⟨h0, h66⟩, hparams, hdefs, hdecls⟩
  exact ⟨s, h, hshifted, ⟨hshared, hbodiless, hnames⟩, hcs, hreach⟩

theorem exists_of_shape {v : VarId} {atoms : List Atom} (h : s.shape v = some (atoms, none)) :
    ∃ p, s.arena.pointer? v = some p ∧ p.atoms = atoms ∧ p.function = none := by
  obtain ⟨p, hp, he⟩ := Option.map_eq_some_iff.1 h
  exact ⟨p, hp, (Prod.mk.inj he).1, (Prod.mk.inj he).2⟩

theorem levels_of_shape {v : VarId} {atoms : List Atom} (h : s.shape v = some (atoms, none)) :
    s.arena.levels v = atoms := by
  obtain ⟨p, hp, rfl, -⟩ := exists_of_shape h
  exact Arena.levels_eq hp

theorem length_slotsFrom (v : VarId) : (slotsFrom v).length = 64 := by
  rw [slotsFrom, List.length_map, List.length_range]

theorem mem_zip_slotsFrom {v w : VarId} {x y : VarSet}
    (h : (x, y) ∈ (slotsFrom v).zip (slotsFrom w)) :
    ∃ j < 64, x = .singleton (v + j) ∧ y = .singleton (w + j) := by
  rw [slotsFrom, slotsFrom, List.zip_map', List.mem_map] at h
  obtain ⟨j, hj, he⟩ := h
  exact ⟨j, List.mem_range.1 hj, (Prod.mk.inj he).1.symm, (Prod.mk.inj he).2.symm⟩

namespace Shifted

theorem records (h : s.Shifted) (hst : s.Records t) : t.Shifted := by
  obtain ⟨hf, hg, hreturns, hparams, hdefs, hdecls⟩ := h
  unfold shape at hreturns hparams
  unfold outline at hf hg
  constructor
  · rwa [outline, hst.arena]
  · rwa [outline, hst.arena]
  · rwa [shape, shape, hst.arena]
  · simpa only [shape, hst.arena] using hparams
  · rwa [hst.only]
  · rwa [hst.declarationsPaired]

/-- Repair hands categories on from a parameter of the function to that of the signature in the same
place, and nowhere else. -/
theorem hop (h : s.Shifted) {sol : Solution} {p q : VarId} (hpq : s.Hop sol p q) {a b : Atom}
    (ha : a ∈ s.arena.levels p) (hb : b ∈ s.arena.levels q) : a < 64 ∧ b = 64 + a := by
  obtain ⟨definition, declaration, ⟨e, he, hleast, hmem⟩, hpartner⟩ := hpq
  rw [h.definitions] at he
  obtain rfl := List.mem_singleton.1 he
  obtain rfl : 65 = definition := Option.some.inj hleast
  rw [h.declared] at hmem
  obtain rfl := List.mem_singleton.1 hmem
  obtain ⟨f', hf', -, -, hfreturns, hfparams⟩ := exists_of_outline h.definition
  obtain ⟨g', hg', -, -, hgreturns, hgparams⟩ := exists_of_outline h.declaration
  cases hpartner with
  | promised hf hg hp hq =>
    obtain rfl := Option.some.inj (hg'.symm.trans hg)
    rw [hgreturns] at hq
    rw [(VarSet.mem_singleton _ _).1 hq, levels_of_shape h.returns.2] at ha
    cases ha
  | returned hf hg hp hq =>
    obtain rfl := Option.some.inj (hf'.symm.trans hf)
    rw [hfreturns] at hp
    rw [(VarSet.mem_singleton _ _).1 hp, levels_of_shape h.returns.1] at ha
    cases ha
  | required hf hg hzip hp hq =>
    obtain rfl := Option.some.inj (hf'.symm.trans hf)
    obtain rfl := Option.some.inj (hg'.symm.trans hg)
    rw [hfparams, hgparams] at hzip
    obtain ⟨j, hj, rfl, rfl⟩ := mem_zip_slotsFrom hzip
    rw [(VarSet.mem_singleton _ _).1 hp, levels_of_shape (h.params j hj).1] at ha
    rw [(VarSet.mem_singleton _ _).1 hq, levels_of_shape (h.params j hj).2] at hb
    rw [List.mem_singleton.1 ha, List.mem_singleton.1 hb]
    exact ⟨hj, rfl⟩

/-- At rest what the function requires of a parameter the signature requires as well. -/
theorem category_le (h : s.Shifted) {sol : Solution} (hagreed : s.Agreed sol)
    (htame : ∀ a, sol.category a ≠ .wild) {j : Nat} (hj : j < 64) :
    sol.category j ≤ sol.category (64 + j) := by
  obtain ⟨f, hf, -, -, -, hfparams⟩ := exists_of_outline h.definition
  obtain ⟨g, hg, -, -, -, hgparams⟩ := exists_of_outline h.declaration
  have hkey : (shiftingFunction.key, VarSet.singleton 65) ∈ s.pairing.definitions := by
    rw [h.definitions]
    exact List.mem_singleton_self _
  have hmem : 131 ∈ s.declarationsPaired shiftingFunction.key 65 := by
    rw [h.declared]
    exact List.mem_singleton_self _
  have hagree := hagreed _ hkey 65 rfl 131 hmem (by decide) f g hf hg
  have hzip : (VarSet.singleton (1 + j), VarSet.singleton (67 + j)) ∈ f.params.zip g.params := by
    rw [hfparams, hgparams, slotsFrom, slotsFrom, List.zip_map', List.mem_map]
    exact ⟨j, List.mem_range.2 hj, rfl⟩
  have hparam := hagree.2 (by rw [hfparams, hgparams]; rfl) _ hzip (1 + j) (67 + j) rfl rfl
  have hnowild : ∀ v, ¬ s.arena.hasWildLevel sol v := by
    intro v hv
    obtain ⟨a, -, ha⟩ := Arena.hasWildLevel_iff.1 hv
    exact htame a ha
  apply hparam ⟨hnowild _, hnowild _⟩
  · rw [Arena.leastSafeLevel?, levels_of_shape (h.params j hj).2]
    rfl
  · rw [Arena.leastSafeLevel?, levels_of_shape (h.params j hj).1]
    rfl

/-- Equating a slot of the signature with the parameter one place further on relates their
levels. -/
theorem equation (h : s.Shifted) {j : Nat} (hj : j < 63) :
    s.arena.equations? (67 + j) (2 + j) = some [(64 + j, j + 1)] := by
  obtain ⟨p, hp, hpatoms, hnone⟩ := exists_of_shape (h.params j (by omega)).2
  obtain ⟨q, hq, hqatoms, -⟩ := exists_of_shape (h.params (j + 1) (by omega)).1
  have hnext : 1 + (j + 1) = 2 + j := by omega
  rw [hnext] at hq
  have hne : (67 + j : Nat) ≠ 2 + j := by omega
  rw [Arena.equations_of_pointers hp hq hne hnone, hpatoms, hqatoms]
  rfl

end Shifted

theorem NothingToLink.records (h : s.NothingToLink) (hst : s.Records t) : t.NothingToLink := by
  obtain ⟨hshared, hbodiless, hnames⟩ := h
  refine ⟨?_, ?_, ?_⟩
  · rwa [hst.only]
  · rw [hst.only, ← hst.arena] at *
    exact hbodiless
  · rwa [hst.only]

/-- The call equates each slot of the signature with the next parameter of the function. -/
structure Chained (s : Session) : Prop where
  shifted : s.Shifted
  first : .atLeast 0 .arr ∈ s.solver.constraints
  next : ∀ j : Nat, j < 63 → s.solver.Entails (.equal (64 + j) (j + 1))
  only : ∀ c ∈ s.solver.constraints, c = .atLeast 0 .arr ∨
    ∃ j : Nat, j < 63 ∧ c = .equal (j + 1) (64 + j)

/-- Following the call comes to looking up its callee and passing the arguments. -/
theorem follow_call {s₀ : Session} {f : FunctionVariable}
    (hoptions : s.options = .default)
    (hcallee : (calleeVariables shifting .body 68 0).Ends s (.singleton 131) s₀)
    (hreach : s₀.arena.reachableFunction? 131 = some f)
    (hpass : (passArguments shifting .body f.params shiftedArgs).Ends s₀ ⟨⟩ t) :
    (follow shifting .body 68).Ends s ⟨⟩ t := by
  have hallowed : shifting.isAllowedCall s.options 68 = .ok false := by
    rw [hoptions]
    decide +kernel
  have hcall : (followCall shifting .body 68 0 shiftedArgs).Ends s ⟨⟩ t := by
    refine ends_bind.2 ⟨s, s, ends_get.2 ⟨rfl, rfl⟩, ends_bind.2 ⟨false, s,
      ends_lift.2 ⟨hallowed, rfl⟩, ends_bind.2 ⟨_, s₀, hcallee, ends_bind.2 ⟨s₀, s₀,
        ends_get.2 ⟨rfl, rfl⟩, ?_⟩⟩⟩⟩
    simp only [VarSet.singleton, List.filterMap_cons, hreach, List.filterMap_nil,
      List.getLast?_singleton]
    exact hpass
  have hleaves : ∀ e ∈ 0 :: shiftedArgs, isLeaf shifting e := by decide +kernel
  rw [follow, followWithin]
  exact ends_bind.2 ⟨.call 0 shiftedArgs, s, ends_lift.2 ⟨rfl, rfl⟩,
    ends_bind.2 ⟨⟨⟩, t, hcall, followAll_leaves hleaves⟩⟩

theorem zip_shiftedValues : (slotsFrom 67).zip shiftedValues =
    ((List.range 63).map fun j => (.singleton (67 + j), .singleton (2 + j))) ++
      [(.singleton 130, .empty)] := by
  decide +kernel

theorem mem_zip_shiftedValues {j : Nat} (hj : j < 63) :
    (VarSet.singleton (67 + j), VarSet.singleton (2 + j)) ∈
      (slotsFrom 67).zip shiftedValues := by
  rw [zip_shiftedValues]
  exact List.mem_append_left _ (List.mem_map.2 ⟨j, List.mem_range.2 hj, rfl⟩)

/-- Each slot of the signature meets the next parameter, and the last one meets nothing. -/
theorem exists_of_mem_zip_shiftedValues {x y : VarSet} {b : VarId}
    (h : (x, y) ∈ (slotsFrom 67).zip shiftedValues) (hb : b ∈ y) :
    ∃ j : Nat, j < 63 ∧ x = .singleton (67 + j) ∧ y = .singleton (2 + j) := by
  rw [zip_shiftedValues] at h
  rcases List.mem_append.1 h with h | h
  · obtain ⟨j, hj, he⟩ := List.mem_map.1 h
    exact ⟨j, List.mem_range.1 hj, (Prod.mk.inj he).1.symm, (Prod.mk.inj he).2.symm⟩
  · obtain ⟨-, rfl⟩ := Prod.mk.inj (List.mem_singleton.1 h)
    exact absurd hb (VarSet.not_mem_empty b)

/-- What the call records: every slot is equated with its value, and nothing else. -/
theorem Shifted.chained (h : s.Shifted) (hcs : s.solver.constraints = #[.atLeast 0 .arr])
    (hst : s.Records t)
    (hequated : ∀ e ∈ (slotsFrom 67).zip shiftedValues, t.EquatedSets e.1 e.2)
    (honly : ∀ c ∈ t.solver.constraints, c ∈ s.solver.constraints ∨
      ∃ e ∈ (slotsFrom 67).zip shiftedValues, ∃ a ∈ e.1, ∃ b ∈ e.2, EquationOf s.arena a b c) :
    t.Chained := by
  have ht := h.records hst
  refine ⟨ht, ?_, ?_, ?_⟩
  · apply hst.solver.mem
    rw [hcs]
    exact Array.mem_singleton_self _
  · intro j hj
    have hslot : 67 + j ∈ VarSet.singleton (67 + j) := (VarSet.mem_singleton _ _).2 rfl
    have hvalue : 2 + j ∈ VarSet.singleton (2 + j) := (VarSet.mem_singleton _ _).2 rfl
    obtain ⟨eqs, heqs, hentails⟩ := hequated _ (mem_zip_shiftedValues hj) _ hslot _ hvalue
    rw [ht.equation hj] at heqs
    obtain rfl := Option.some.inj heqs
    exact hentails _ (List.mem_singleton_self _)
  · intro c hc
    rcases honly c hc with hc | ⟨⟨x, y⟩, he, a, ha, b, hb, eqs, heqs, pair, hpair, rfl⟩
    · rw [hcs] at hc
      exact .inl (Array.mem_singleton.1 hc)
    · obtain ⟨j, hj, rfl, rfl⟩ := exists_of_mem_zip_shiftedValues he hb
      rw [(VarSet.mem_singleton _ _).1 ha, (VarSet.mem_singleton _ _).1 hb, h.equation hj] at heqs
      obtain rfl := Option.some.inj heqs
      rw [List.mem_singleton.1 hpair]
      have hlt : (j + 1 : Nat) < 64 + j := by omega
      exact .inr ⟨j, hj, if_pos hlt⟩

/-- What is left when the call was followed, before linking. -/
theorem exists_followed : ∃ idx opened w z, (indexUnits [shifting]).Ends (.new .default) ⟨⟩ idx ∧
    (enter shifting).Ends idx ⟨⟩ opened ∧
    (attemptAll shifting [.expr 66]).Ends opened ⟨⟩ w ∧
    (follow shifting .body 68).Ends w ⟨⟩ z ∧ z.Chained ∧ z.NothingToLink := by
  obtain ⟨s₀, hbefore, hshifted, hnothing, hcs, hreach⟩ := exists_beforeCall
  obtain ⟨_, idx, hindex, hbefore⟩ := ends_bind.1 hbefore
  obtain ⟨_, opened, henter, hbefore⟩ := ends_bind.1 hbefore
  obtain ⟨_, w, hfirst, hbefore⟩ := ends_bind.1 hbefore
  obtain ⟨callee, s₁, hcallee, hbefore⟩ := ends_bind.1 hbefore
  obtain ⟨values, s₂, hvalues, hbefore⟩ := ends_bind.1 hbefore
  obtain ⟨he, rfl⟩ := ends_pure.1 hbefore
  obtain ⟨rfl, rfl⟩ := Prod.mk.inj he
  obtain ⟨b, hattempt⟩ := ends_discard.1 hfirst
  have hplain : ∀ e ∈ shiftedArgs, isPlain shifting e := by decide +kernel
  obtain ⟨rfl, hdenote⟩ := denoteAll_same hplain hvalues
  -- the sessions on the way are well formed
  have hindexed : (Session.new .default).Indexes idx :=
    indexes_of_indexUnits hindex (wellFormed_new .default)
  have hopened : idx.Follows opened := ((enter_meets shifting idx).of_ends henter).1
  have hidx := hindexed.wellFormed (wellFormed_new .default)
  have hw : opened.Visits w :=
    ((attempt_meets shifting (.expr 66) (hopened.wellFormed hidx)).of_ends hattempt).1
  have hwell := hw.wellFormed (hopened.wellFormed hidx)
  have hvisit : w.Visits s₁ :=
    ((calleeVariables_recalls shifting .body 68 0 hwell).of_ends hcallee).1
  have hs := hvisit.wellFormed hwell
  have hoptions : w.options = .default := by rw [hw.options, hopened.options, hindexed.options]; rfl
  -- the call equates slots and values one by one
  obtain ⟨g, hg, hslots⟩ := Option.map_eq_some_iff.1 hreach
  obtain ⟨v, hfun⟩ := Arena.function?_of_reachableFunction? hg
  have hholds : ∀ slot ∈ g.params, Holds slot s₁ := fun slot hslot =>
    holds_slot hs hfun (List.mem_cons_of_mem _ hslot)
  have hargs := hdenote.imp fun arg set harg =>
    ((denote_recalls shifting arg .body hs).of_ends harg).2
  obtain ⟨z, hpass, hsz, hequated, honly⟩ := passArguments_adds hs hholds hargs
    (by rw [hslots, length_slotsFrom]; exact Nat.le_refl 64)
  rw [hslots] at hequated honly
  have hfollow := follow_call hoptions hcallee hg hpass
  refine ⟨idx, opened, w, z, hindex, henter, ?_, hfollow,
    hshifted.chained hcs hsz hequated honly, hnothing.records hsz⟩
  exact (attemptAll_singleton shifting (.expr 66)).2 ⟨b, hattempt⟩

/-- Linking finds nothing to do, so what it leaves is what the call has left. -/
theorem chained_linked (p : Phases [shifting] (.new .default) outcome t) : p.linked.Chained := by
  obtain ⟨idx, opened, w, z, hindex, henter, hfirst, hfollow, hchained, hnothing⟩ := exists_followed
  obtain ⟨s₁, steps, s₂, s₃, f', henter', hsteps, hattempts, hexit, hrest⟩ :=
    ends_flowUnits_cons p.flow
  obtain ⟨-, hidx⟩ := p.index.unique hindex
  rw [hidx] at henter'
  obtain ⟨-, rfl⟩ := henter'.unique henter
  have hboth : shifting.steps = .ok ([.expr 66] ++ [.expr 68]) := by decide +kernel
  obtain rfl := Except.ok.inj (hboth.symm.trans hsteps)
  obtain ⟨w', hfirst', hsecond⟩ := (attemptAll_append shifting _ _).1 hattempts
  obtain ⟨-, rfl⟩ := hfirst'.unique hfirst
  obtain ⟨b, hsecond⟩ := (attemptAll_singleton shifting (.expr 68)).1 hsecond
  obtain ⟨-, rfl⟩ := hsecond.unique (ends_attempt.2 (.inl ⟨rfl, hfollow⟩))
  obtain ⟨-, hfollowed⟩ := ends_pure.1 hrest
  rw [eq_of_exit hexit] at hfollowed
  -- that no unit is open any more is nothing that these facts look at
  obtain ⟨⟨hf, hg, hreturns, hparams, hdefs, hdecls⟩, hzero, hnext, honly⟩ := hchained
  have hshifted : p.followed.Shifted := by
    rw [← hfollowed]
    exact ⟨hf, hg, hreturns, hparams, hdefs, hdecls⟩
  have hsolver : p.followed.solver = s₂.solver := by rw [← hfollowed]
  have hlink : Adds (fun _ => False) link p.followed := by
    rw [← hfollowed]
    exact link_adds_nothing hnothing.shared hnothing.bodiless hnothing.names
  obtain ⟨hlinks, hadds⟩ := hlink.of_ends p.link
  have hlinks : p.followed.Records p.linked := hlinks
  refine ⟨hshifted.records hlinks, hlinks.solver.mem (hsolver ▸ hzero), ?_, ?_⟩
  · exact fun j hj => (hsolver ▸ hnext j hj).grows hlinks.solver
  · exact fun c hc => honly c (hsolver ▸ (hadds c hc).resolve_right id)

/-- How many rounds away an atom is: the parameters come one after another, and a slot of the
signature is as far away as the parameter that it is equated with. -/
def shiftedDistance (a : Nat) : Nat := if a < 64 then a else a - 63

theorem shiftedDistance_param {j : Nat} (hj : j < 64) : shiftedDistance j = j := if_pos hj

theorem shiftedDistance_slot (j : Nat) : shiftedDistance (64 + j) = j + 1 := by
  unfold shiftedDistance
  rw [if_neg (by omega)]
  omega

namespace Chained

/-- Constraints spread by one slot a round at most. -/
theorem spreads (h : s.Chained) : s.Spreads .arr shiftedDistance 0 := by
  apply Spreads.start
  · intro a c hc
    rcases h.only _ hc with he | ⟨j, -, he⟩
    · cases he
      exact ⟨Category.le_refl .arr, rfl⟩
    · cases he
  · intro a b hc
    rcases h.only _ hc with he | ⟨j, hj, he⟩
    · cases he
    · cases he
      have hparam : j + 1 < 64 := by omega
      exact (shiftedDistance_param hparam).trans (shiftedDistance_slot j).symm
  · intro sol p q hpq a ha b hb
    obtain ⟨ha, rfl⟩ := h.shifted.hop hpq ha hb
    exact Nat.le_of_eq ((shiftedDistance_slot a).trans (by rw [shiftedDistance_param ha]))

/-- Where definition and signature agree, every parameter is an array. -/
theorem arr_le (h : s.Chained) (hs : s.WellFormed) (hst : s.Records t)
    (hagreed : t.Agreed t.solver.solve) (htame : ∀ a, t.solver.solve.category a ≠ .wild) {j : Nat}
    (hj : j < 64) : .arr ≤ t.solver.solve.category (64 + j) := by
  have ht := hst.creates.wellFormed hs
  have hrequired : ∀ {j : Nat}, j < 64 →
      t.solver.solve.category j ≤ t.solver.solve.category (64 + j) := fun hj =>
    (h.shifted.records hst).category_le hagreed htame hj
  induction j with
  | zero =>
    have hfirst : .arr ≤ t.solver.solve.category 0 := ht.solver.solves _ (hst.solver.mem h.first)
    exact Category.le_trans hfirst (hrequired hj)
  | succ j ih =>
    have hequal : t.solver.solve.category (64 + j) = t.solver.solve.category (j + 1) :=
      ((h.next j (by omega)).grows hst.solver).satisfies ht.solver
    have hprevious := ih (by omega)
    rw [hequal] at hprevious
    exact Category.le_trans hprevious (hrequired hj)

/-- Sixty-four rounds are too few to reach the last slot of the signature. -/
theorem unconverged (h : s.Chained) (hs : s.WellFormed) {r : Settled}
    (hends : (settleFrom 64 0 s.solver.solve).Ends s r t) : r.converged = false := by
  obtain ⟨k, w, hrounds, ⟨hconv, hk, -, hrest⟩ | ⟨hconv, -⟩⟩ := settleFrom_rounds hends
  · exfalso
    have hsw := hrounds.records hs
    have hw := hsw.creates.wellFormed hs
    have hspread := hrounds.spreads hs h.spreads
    rw [Nat.zero_add] at hspread
    have hle := hspread.category_le hw
    have hagreed : w.Agreed w.solver.solve :=
      (((repair_repairs w.solver.solve hw).of_ends hrest).2.1 rfl).2
    have htame : ∀ a, w.solver.solve.category a ≠ .wild := by
      intro a ha
      have hreach := hle a
      rw [ha, withinReach] at hreach
      split at hreach
      · exact absurd hreach (by decide)
      · exact absurd hreach (by decide)
    have hlast := h.arr_le hs hsw hagreed htame (j := 63) (by omega)
    have hfar := Category.le_trans hlast (hle (64 + 63))
    have hdistance : shiftedDistance (64 + 63) = 64 := rfl
    rw [withinReach, hdistance, if_neg (by omega)] at hfar
    exact absurd hfar (by decide)
  · exact hconv

end Chained

/-- Each round raises one more parameter, and the default bound stops the run before the last. -/
theorem analyse_stops_at_shifting :
    ∃ outcome s, (analyse [shifting]).Ends (.new .default) outcome s ∧
      outcome.settled.converged = false := by
  have hclosed : ∀ u ∈ [shifting], u.Closed := by
    intro u hu
    rw [List.mem_singleton.1 hu]
    exact closed_of_checkClosed (by decide +kernel)
  have hhides : ∀ u ∈ [shifting], ∀ name, u.Hides name → False := by
    rintro u hu name ⟨ids, hids, id, hid, d, hd, ⟨-, hfun, -⟩, -⟩
    rw [List.mem_singleton.1 hu] at hids hd
    have hone : shifting.declarators = .ok [0] := by decide +kernel
    obtain rfl := Except.ok.inj (hone.symm.trans hids)
    obtain rfl := List.mem_singleton.1 hid
    obtain rfl := Except.ok.inj hd
    exact hfun rfl
  have hfails : FailsOnly (fun _ => False) (analyse [shifting]) (.new .default) :=
    analyse_failsOnly hclosed (idle_new .default) hhides
  obtain ⟨outcome, s, h⟩ := hfails.ends
  obtain ⟨p⟩ := exists_phases h
  obtain ⟨sol, w, hsolve, hsettle⟩ := ends_bind.1 p.settle
  obtain ⟨rfl, rfl⟩ := ends_solve.1 hsolve
  rw [p.options_linked] at hsettle
  exact ⟨outcome, s, h, (chained_linked p).unconverged p.wellFormed_linked hsettle⟩

end Session

end CheckedPointers
