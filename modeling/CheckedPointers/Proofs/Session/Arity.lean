import CheckedPointers.Proofs.Session.Requests
import CheckedPointers.Proofs.Session.Transfer
import CheckedPointers.Proofs.Variable.Shape

/-!
Declarations whose arities disagree. Linking forces two such prototypes where they are neighbours
among the bodiless variants of their name, and what it forces spreads to further neighbours that
have the same shape. It goes no further than that.
-/
namespace CheckedPointers

open Op

namespace Arena

variable {arena : Arena} {a b : VarId}

def arity? (arena : Arena) (v : VarId) : Option Nat :=
  (arena.function? v).map fun f => f.params.length

/-- Two functions with prototypes that list differently many parameters. -/
def Conflict (arena : Arena) (a b : VarId) : Prop :=
  ∃ f g, arena.function? a = some f ∧ arena.function? b = some g ∧ f.hasPrototype ∧
    g.hasPrototype ∧ f.params.length ≠ g.params.length

theorem Conflict.arity_ne (h : arena.Conflict a b) : arena.arity? a ≠ arena.arity? b := by
  obtain ⟨f, g, hf, hg, -, -, hne⟩ := h
  simpa [arity?, hf, hg] using hne

theorem SameShape.arity_eq (h : arena.SameShape a b) {f : FunctionVariable}
    (hf : arena.function? a = some f) : arena.arity? a = arena.arity? b := by
  cases h with
  | pointers hp => exact absurd hp (pointer?_ne_of_function? hf)
  | functions hf hg params => simp [arity?, hf, hg, params]

end Arena

namespace Session

variable {s t : Session} {options : Options} {a b : VarId}

/-- Reconciled functions coincide. -/
theorem Reconciled.coincide {f g : FunctionVariable} (h : s.Reconciled a b)
    (hf : s.arena.function? a = some f) (hg : s.arena.function? b = some g) :
    s.arena.Coincide s.solver.verdict.same a b := by
  obtain ⟨hreturns, hparams⟩ := h f g hf hg
  exact .functions hf hg hreturns.coincident fun hlen e he => (hparams hlen e he).coincident

def AllWild (s : Session) (v : VarId) : Prop :=
  s.arena.All (fun a => s.solver.solve.category a = .wild) v

/-- Conflicting neighbours are wild all over. -/
theorem Merged.wild_of_conflict (h : s.Merged a b) (hs : s.WellFormed)
    (hconflict : s.arena.Conflict a b) : s.AllWild a ∧ s.AllWild b := by
  obtain ⟨f, g, hf, hg, hfp, hgp, hne⟩ := hconflict
  obtain ⟨hleft, hright⟩ := h.conflicted f g hf hg hne hfp hgp
  exact ⟨hleft.all_wild hs hf, hright.all_wild hs hg⟩

/-- Of neighbours of one shape both are wild all over or none is. -/
theorem Merged.wild_iff (h : s.Merged a b) (hs : s.WellFormed) (hshape : s.arena.SameShape a b)
    {f : FunctionVariable} (hf : s.arena.function? a = some f) : s.AllWild a ↔ s.AllWild b := by
  obtain ⟨g, hg⟩ : ∃ g, s.arena.function? b = some g := by
    cases hshape with
    | pointers hp => exact absurd hp (Arena.pointer?_ne_of_function? hf)
    | functions _ hg => exact ⟨_, hg⟩
  have hsound := hs.solver.verdict.same
  have hcoincide : s.arena.Coincide s.solver.solve.verdict.same a b :=
    (h.reconciled.coincide hf hg).imp (.refl _) hsound
  have hwild : ∀ x y, s.solver.solve.verdict.same x y → s.solver.solve.category y = .wild →
      s.solver.solve.category x = .wild := fun _ _ hxy hy => Eq.trans hxy hy
  have hsame := s.solver.solve.equivalence_same
  exact ⟨hshape.symm.all hs.arena hsame hwild (.symm hcoincide),
    hshape.all hs.arena hsame hwild hcoincide⟩

/-- A run of variants of a name, neighbour by neighbour of the same shape or in conflict. Where two
of them conflict linking forces all of them. -/
theorem Reachable.link_forces_conflicts {summary : LinkSummary} {name : String} {l : List VarId}
    {x y : VarId} (hs : Reachable options s) (hmerge : options.mergeDeclarations)
    (h : link.Ends s summary t) (hl : l <:+: bodiless s.arena (s.variants name))
    (hneighbours : l.IsChain fun a b => s.arena.SameShape a b ∨ s.arena.Conflict a b)
    (hx : x ∈ l) (hy : y ∈ l) (hconflict : s.arena.Conflict x y) : ∀ v ∈ l, t.AllWild v := by
  have hends := (link_merges name s).of_ends h
  have hst : s.Records t := hends.1
  have hmerged := List.IsChain.infix (hends.2 (hs.options_eq ▸ hmerge)) hl
  have ht := hst.creates.wellFormed hs.wellFormed
  have hfunction : ∀ v ∈ l, ∃ f, t.arena.function? v = some f := fun v hv => by
    obtain ⟨-, hf⟩ := List.mem_filter.1 (hl.subset hv)
    obtain ⟨f, hf, -⟩ := (Option.any_eq_true _ _).1 hf
    exact ⟨f, hst.arena ▸ hf⟩
  rw [← hst.arena] at hneighbours hconflict
  rw [List.isChain_iff_forall_rel_of_append_cons_cons] at hmerged hneighbours
  -- neighbours are wild together
  have hspread : l.IsChain fun a b => t.AllWild a ↔ t.AllWild b := by
    rw [List.isChain_iff_forall_rel_of_append_cons_cons]
    intro a b pre post hsplit
    rcases hneighbours hsplit with hshape | hne
    · obtain ⟨f, hf⟩ := hfunction a (by simp [hsplit])
      exact (hmerged hsplit).wild_iff ht hshape hf
    · obtain ⟨ha, hb⟩ := (hmerged hsplit).wild_of_conflict ht hne
      exact ⟨fun _ => hb, fun _ => ha⟩
  -- if none was wild no neighbours would conflict, and all would have one arity
  obtain ⟨z, hz, hwild⟩ : ∃ z ∈ l, t.AllWild z := by
    by_contra hno
    have harity : l.IsChain fun a b => t.arena.arity? a = t.arena.arity? b := by
      rw [List.isChain_iff_forall_rel_of_append_cons_cons]
      intro a b pre post hsplit
      have ha : a ∈ l := by simp [hsplit]
      rcases hneighbours hsplit with hshape | hne
      · obtain ⟨f, hf⟩ := hfunction a ha
        exact hshape.arity_eq hf
      · exact absurd ⟨a, ha, ((hmerged hsplit).wild_of_conflict ht hne).1⟩ hno
    have hequal : Equivalence fun a b => t.arena.arity? a = t.arena.arity? b :=
      ⟨fun _ => rfl, Eq.symm, Eq.trans⟩
    exact hconflict.arity_ne (rel_of_isChain hequal harity hx hy)
  have hequiv : Equivalence fun a b => t.AllWild a ↔ t.AllWild b :=
    ⟨fun _ => .rfl, .symm, .trans⟩
  exact fun v hv => (rel_of_isChain hequiv hspread hz hv).1 hwild

def declaringUnit (file : String) (n : Nat) (hasPrototype : Bool) (body : Option (List Stmt)) :
    TranslationUnit :=
  let ptr : CType := .pointer .int
  let signature : Signature := ⟨ptr, List.replicate n ptr, false, hasPrototype⟩
  let param (i : Nat) : Decl := ⟨"p", ⟨file, 1, i + 1⟩, false, .param ptr (some n) none⟩
  let func : Decl := ⟨"f", ⟨file, 2, 1⟩, false, .function signature (List.range n) true body⟩
  { id := 0
    file := file
    decls := ((List.range n).map param ++ [func]).toArray
    exprs := #[]
    topLevel := [n] }

def indexing (u : TranslationUnit) (func : DeclId) : List Request :=
  [.enter u, .giveVariables u func, .noteFunction u func, .exit]

/-- What tells functions apart when they are linked. -/
def profile (s : Session) (v : VarId) : Option (Bool × VarSet × List VarSet) :=
  (s.arena.function? v).map fun f => (f.hasPrototype, f.returns, f.params)

theorem exists_of_profile {v : VarId} {proto : Bool} {r : VarSet} {slots : List VarSet}
    (h : s.profile v = some (proto, r, slots)) :
    ∃ f, s.arena.function? v = some f ∧ f.hasPrototype = proto ∧ f.returns = r ∧
      f.params = slots := by
  obtain ⟨f, hf, he⟩ := Option.map_eq_some_iff.1 h
  simp only [Prod.mk.injEq] at he
  exact ⟨f, hf, he⟩

def levelsAndTarget (s : Session) (v : VarId) : Option (List Atom × Option VarId) :=
  (s.arena.pointer? v).map fun p => (p.atoms, p.function)

/-- Pointers of one level that lead nowhere have one shape. -/
theorem sameShape_of_one_level {x y : Atom} (h : s.levelsAndTarget a = some ([x], none))
    (h' : s.levelsAndTarget b = some ([y], none)) : s.arena.SameShape a b := by
  obtain ⟨p, hp, he⟩ := Option.map_eq_some_iff.1 h
  obtain ⟨q, hq, he'⟩ := Option.map_eq_some_iff.1 h'
  simp only [Prod.mk.injEq] at he he'
  exact .pointers hp hq (by simp [he, he']) (by simp [he, he']) fun f g hf _ => by simp [he] at hf

/-- Functions that fill all their slots have one shape if what fills them has. -/
theorem sameShape_of_profile {p q : Bool} {r r' : VarId} {l l' : List VarId}
    (hf : s.profile a = some (p, .singleton r, l.map VarSet.singleton))
    (hg : s.profile b = some (q, .singleton r', l'.map VarSet.singleton))
    (hslots : List.Forall₂ s.arena.SameShape (r :: l) (r' :: l')) : s.arena.SameShape a b := by
  obtain ⟨f, hf, -, hfreturns, hfparams⟩ := exists_of_profile hf
  obtain ⟨g, hg, -, hgreturns, hgparams⟩ := exists_of_profile hg
  have hfslots : f.slots = (r :: l).map VarSet.singleton := by
    rw [FunctionVariable.slots, hfreturns, hfparams, List.map_cons]
  have hgslots : g.slots = (r' :: l').map VarSet.singleton := by
    rw [FunctionVariable.slots, hgreturns, hgparams, List.map_cons]
  exact .of_filled hf hg hfslots hgslots hslots

/-- Two prototypes of one parameter, one of two, and a definition. -/
def disagreeing : List Request :=
  indexing (declaringUnit "a.c" 1 true none) 1 ++ indexing (declaringUnit "b.c" 1 true none) 1 ++
  indexing (declaringUnit "c.c" 2 true none) 2 ++ indexing (declaringUnit "d.c" 1 true (some [])) 1

/-- The first and the last prototype conflict, and both end wild. -/
theorem Reachable.link_forces_conflicts_disagreeing :
    ∃ s summary t, Reachable .default s ∧ link.Ends s summary t ∧
      bodiless s.arena (s.variants "f") = [2, 5, 9] ∧ s.arena.Conflict 2 9 ∧
      s.arena.atoms? 2 = some [0, 1] ∧ t.AllWild 2 ∧
      s.arena.atoms? 9 = some [4, 5, 6] ∧ t.AllWild 9 := by
  obtain ⟨_, s, hrequests, hfound⟩ := exists_ends (x := Session.requests disagreeing)
    (s := .new .default)
    (g := fun _ s => (link s).1.toOption.map (fun _ => ()) = some () &&
      bodiless s.arena (s.variants "f") = [2, 5, 9] &&
      [2, 9].map s.arena.atoms? = [some [0, 1], some [4, 5, 6]] &&
      s.profile 2 = some (true, .singleton 0, [.singleton 1]) &&
      s.profile 5 = some (true, .singleton 3, [.singleton 4]) &&
      s.profile 9 = some (true, .singleton 6, [.singleton 7, .singleton 8]) &&
      [0, 1, 3, 4].map s.levelsAndTarget =
        [some ([0], none), some ([1], none), some ([2], none), some ([3], none)])
    (b := true) (by decide +kernel)
  simp only [Bool.and_eq_true, decide_eq_true_eq, List.map_cons, List.map_nil, List.cons.injEq,
    and_true] at hfound
  obtain ⟨⟨⟨⟨⟨⟨hlink, hvariants⟩, hatoms, hatoms'⟩, he⟩, hf⟩, hg⟩, hr, hp, hr', hp'⟩ := hfound
  obtain ⟨summary, t, hlink, -⟩ := exists_ends (x := link) (g := fun _ _ => ()) hlink
  have hshape : s.arena.SameShape 2 5 := sameShape_of_profile he hf
    (.cons (sameShape_of_one_level hr hr') (.cons (sameShape_of_one_level hp hp') .nil))
  obtain ⟨e, he, heproto, -, heparams⟩ := exists_of_profile he
  obtain ⟨f, hf, hfproto, -, hfparams⟩ := exists_of_profile hf
  obtain ⟨g, hg, hgproto, -, hgparams⟩ := exists_of_profile hg
  have hconflict : s.arena.Conflict 2 9 :=
    ⟨e, g, he, hg, heproto, hgproto, by simp [heparams, hgparams]⟩
  have hneighbours : s.arena.Conflict 5 9 :=
    ⟨f, g, hf, hg, hfproto, hgproto, by simp [hfparams, hgparams]⟩
  have hs : Reachable .default s := Reachable.new.requests hrequests
  have hrun : [2, 5, 9] <:+: bodiless s.arena (s.variants "f") := by simp [hvariants]
  have hwild := hs.link_forces_conflicts rfl hlink hrun (by simp [hshape, hneighbours])
    List.mem_cons_self (List.mem_of_getElem? (i := 2) rfl) hconflict
  exact ⟨s, summary, t, hs, hlink, hvariants, hconflict, hatoms, hwild 2 (by simp), hatoms',
    hwild 9 (by simp)⟩

/-- A declaration without prototype stands between one of one parameter and one of two. -/
def parted : List Request :=
  indexing (declaringUnit "a.c" 1 true none) 1 ++ indexing (declaringUnit "b.c" 0 false none) 0 ++
  indexing (declaringUnit "c.c" 2 true none) 2 ++ indexing (declaringUnit "d.c" 1 true (some [])) 1

/-- Neither is a neighbour of the other, and linking leaves both alone. -/
theorem link_parts_conflicts :
    ∃ s summary t, Reachable .default s ∧ Options.default.mergeDeclarations ∧
      link.Ends s summary t ∧
      2 ∈ bodiless s.arena (s.variants "f") ∧ 8 ∈ bodiless s.arena (s.variants "f") ∧
      s.arena.Conflict 2 8 ∧
      ∀ v ∈ [2, 8], (∃ a, t.arena.Owns v a ∧ t.solver.solve.category a = .ptr) ∧ ¬ t.AllWild v := by
  obtain ⟨_, s, hrequests, hfound⟩ := exists_ends (x := Session.requests parted)
    (s := .new .default)
    (g := fun _ s => (link s).1.toOption.map (fun _ => [2, 8].map (link s).2.arena.atoms? =
        [some [0, 1], some [3, 4, 5]] && (link s).2.solver.solve.category 0 = .ptr &&
        (link s).2.solver.solve.category 3 = .ptr) = some true &&
      bodiless s.arena (s.variants "f") = [2, 4, 8] &&
      s.profile 2 = some (true, .singleton 0, [.singleton 1]) &&
      s.profile 8 = some (true, .singleton 5, [.singleton 6, .singleton 7]))
    (b := true) (by decide +kernel)
  simp only [Bool.and_eq_true, decide_eq_true_eq] at hfound
  obtain ⟨⟨⟨hlink, hvariants⟩, hf⟩, hg⟩ := hfound
  obtain ⟨summary, t, hlink, hlook⟩ := exists_ends (x := link) (g := fun _ t =>
    [2, 8].map t.arena.atoms? = [some [0, 1], some [3, 4, 5]] &&
      t.solver.solve.category 0 = .ptr && t.solver.solve.category 3 = .ptr) hlink
  simp only [Bool.and_eq_true, decide_eq_true_eq, List.map_cons, List.map_nil, List.cons.injEq,
    and_true] at hlook
  obtain ⟨⟨⟨hatoms, hatoms'⟩, hptr⟩, hptr'⟩ := hlook
  obtain ⟨f, hf, hfproto, -, hfparams⟩ := exists_of_profile hf
  obtain ⟨g, hg, hgproto, -, hgparams⟩ := exists_of_profile hg
  have hleft : ∀ {v a : Nat}, t.arena.Owns v a → t.solver.solve.category a = .ptr →
      (∃ a, t.arena.Owns v a ∧ t.solver.solve.category a = .ptr) ∧ ¬ t.AllWild v :=
    fun howns hptr => ⟨⟨_, howns, hptr⟩, fun hwild => nomatch hptr.symm.trans (hwild.of_owns howns)⟩
  refine ⟨s, summary, t, Reachable.new.requests hrequests, rfl, hlink, by simp [hvariants],
    by simp [hvariants], ⟨f, g, hf, hg, hfproto, hgproto, by simp [hfparams, hgparams]⟩, ?_⟩
  simp only [List.forall_mem_cons, List.not_mem_nil, IsEmpty.forall_iff, implies_true, and_true]
  exact ⟨hleft ⟨_, hatoms, by simp⟩ hptr, hleft ⟨_, hatoms', by simp⟩ hptr'⟩

end Session

end CheckedPointers
