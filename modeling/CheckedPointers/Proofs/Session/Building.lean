import CheckedPointers.Proofs.Session.Apartness
import CheckedPointers.Proofs.Session.Hops
import CheckedPointers.Proofs.Session.Leaving
import CheckedPointers.Proofs.Session.Origins

/-!
What stands in new variables. Whatever is made for a declaration, every new atom stands in one new
pointer at one level of it, and only new atoms are bounded.
-/
namespace CheckedPointers

open Op

/-- The atoms of a variable's own levels; a function has none. -/
def Variable.ownAtoms : Variable → List Atom
  | .pointer p => p.atoms
  | .function _ => []

namespace Session

variable {s t w : Session} {u : TranslationUnit}

/-- Variables are added, and the new atoms stand in them, one at each level. -/
def Stocks (s t : Session) : Prop :=
  ∃ made n, t.arena.toList = s.arena.toList ++ made ∧
    t.solver.cells.size = s.solver.cells.size + n ∧
    (made.flatMap Variable.ownAtoms).Perm (List.range' s.solver.cells.size n)

theorem Stocks.of_same (harena : t.arena = s.arena)
    (hsize : t.solver.cells.size = s.solver.cells.size) : s.Stocks t :=
  ⟨[], 0, by simp [harena], by omega, by simp⟩

theorem Stocks.trans (h : s.Stocks t) (h' : t.Stocks w) : s.Stocks w := by
  obtain ⟨made, n, harena, hsize, hperm⟩ := h
  obtain ⟨made', n', harena', hsize', hperm'⟩ := h'
  refine ⟨made ++ made', n + n', ?_, by omega, ?_⟩
  · rw [harena', harena, List.append_assoc]
  · rw [hsize] at hperm'
    rw [List.flatMap_append, ← List.range'_append_1]
    exact hperm.append hperm'

/-- The new atoms stand in the new variables, and only new atoms are bounded. -/
structure Furnishes (s t : Session) : Prop where
  bounds : ∀ c ∈ t.solver.constraints, c ∈ s.solver.constraints ∨
    ∃ a k, c = .atLeast a k ∧ s.solver.cells.size ≤ a
  stocks : s.Stocks t

theorem Furnishes.refl (s : Session) : s.Furnishes s := ⟨fun _ => .inl, .of_same rfl rfl⟩

theorem Furnishes.trans (h : s.Furnishes t) (h' : t.Furnishes w) : s.Furnishes w := by
  obtain ⟨_, n, _, hsize, _⟩ := h.stocks
  refine ⟨fun c hc => ?_, h.stocks.trans h'.stocks⟩
  rcases h'.bounds c hc with hc | ⟨a, k, hc, ha⟩
  · exact h.bounds c hc
  · exact .inr ⟨a, k, hc, by omega⟩

/-- Making a function variable uses no atom. -/
theorem furnishes_push_function (s : Session) (f : FunctionVariable) :
    s.Furnishes { s with arena := s.arena.push (.function f) } where
  bounds _ := .inl
  stocks := ⟨[.function f], 0, by simp [Variable.ownAtoms]⟩

structure Builds (s t : Session) : Prop extends Creates s t, Furnishes s t

theorem Builds.refl (s : Session) : s.Builds s := ⟨.refl s, .refl s⟩

theorem Builds.trans (h : s.Builds t) (h' : t.Builds w) : s.Builds w :=
  ⟨h.toCreates.trans h'.toCreates, h.toFurnishes.trans h'.toFurnishes⟩

end Session

namespace Frame

def builds : Frame := ⟨Session.Builds, .refl, .trans⟩

end Frame

namespace Session

variable {s t w : Session} {u : TranslationUnit}

/-! ## Declared types -/

/-- As many atoms as were asked for, in order. -/
theorem freshAtoms_answers (n : Nat) (s : Session) :
    Meets .any (freshAtoms n) s fun atoms t => atoms = List.range' s.solver.cells.size n ∧
      t.arena = s.arena ∧ t.solver.constraints = s.solver.constraints ∧
      t.solver.cells.size = s.solver.cells.size + n := by
  induction n generalizing s with
  | zero => exact Meets.pure ⟨rfl, rfl, rfl, rfl⟩
  | succ n ih =>
    have hfresh : Meets .any freshAtom s fun a t => a = s.solver.cells.size ∧
        t.arena = s.arena ∧ t.solver.constraints = s.solver.constraints ∧
        t.solver.cells.size = s.solver.cells.size + 1 :=
      Meets.modifyGet trivial ⟨rfl, rfl, rfl, by simp [ConstraintSystem.fresh]⟩
    refine Meets.bind hfresh fun a t _ ha => ?_
    refine Meets.bind (ih t) fun atoms w _ hrest => Meets.pure ?_
    obtain ⟨ha, harena, hcs, hsize⟩ := ha
    obtain ⟨hatoms, harena', hcs', hsize'⟩ := hrest
    refine ⟨?_, harena'.trans harena, hcs'.trans hcs, by omega⟩
    rw [ha, hatoms, hsize, List.range'_succ]

/-- The atoms of a new pointer stand in it, or in what its levels lead to. -/
theorem newPointerOver_furnishes {ty : CType} {name : String} {itype : Option String}
    {pointee : Op (Option VarId)}
    (hp : ∀ s, Meets .any pointee s fun _ t => s.Furnishes t) (s : Session) :
    Meets .any (newPointerOver ty name itype pointee) s fun _ t => s.Furnishes t := by
  refine Meets.bind (freshAtoms_answers _ s) fun atoms t _ ⟨hatoms, harena, hcs, hsize⟩ => ?_
  refine Meets.bind (hp t) fun o w _ htw => Meets.modifyGet trivial ?_
  obtain ⟨made, n, harena', hsize', hperm⟩ := htw.stocks
  rw [hsize] at hsize' hperm
  refine ⟨fun c hc => ?_, made ++ [.pointer ⟨atoms, ty.bottom.display, name, o, ty.isArray, itype⟩],
    ty.depth + n, ?_, ?_, ?_⟩
  · rcases htw.bounds c hc with hc | ⟨a, k, hc, ha⟩
    · exact .inl (hcs ▸ hc)
    · exact .inr ⟨a, k, hc, by omega⟩
  · rw [Array.toList_push, harena', harena, List.append_assoc]
  · change w.solver.cells.size = _
    omega
  · -- the levels of the pointer come before those of what it leads to
    rw [List.flatMap_append, ← List.range'_append_1, hatoms]
    simp only [List.flatMap_singleton, Variable.ownAtoms]
    exact List.perm_append_comm.trans (hperm.append_left _)

mutual

theorem newPointee_furnishes (name : String) (s : Session) : (ty : CType) →
    Meets .any (newPointee name ty) s fun _ t => s.Furnishes t
  | .pointer inner => by
    rw [newPointee]
    exact newPointee_furnishes name s inner
  | .array elem _ => by
    rw [newPointee]
    exact newPointee_furnishes name s elem
  | .typedef _ underlying => by
    rw [newPointee]
    exact newPointee_furnishes name s underlying
  | .function ret params _ _ => by
    rw [newPointee]
    refine Meets.bind (newPointerOver_furnishes (fun s => newPointee_furnishes name s ret) s)
      fun r t _ hst => ?_
    refine Meets.bind (newSlots_furnishes t params) fun slots w _ htw => ?_
    exact Meets.bind (Meets.modifyGet trivial (furnishes_push_function w _))
      fun _ z _ hwz => Meets.pure ((hst.trans htw).trans hwz)
  | .builtin _ => by
    rw [newPointee]
    exact Meets.pure (.refl s)
  | .record _ => by
    rw [newPointee]
    exact Meets.pure (.refl s)

theorem newSlots_furnishes (s : Session) : (tys : List CType) →
    Meets .any (newSlots tys) s fun _ t => s.Furnishes t
  | [] => by
    rw [newSlots]
    exact Meets.pure (.refl s)
  | ty :: rest => by
    rw [newSlots]
    refine Meets.bind (newPointerOver_furnishes (fun s => newPointee_furnishes "" s ty) s)
      fun p t _ hst => ?_
    exact Meets.bind (newSlots_furnishes t rest) fun slots w _ htw => Meets.pure (hst.trans htw)

end

/-- A new pointer owns new atoms only, and they all stand where they should. -/
theorem newPointer_builds (ty : CType) (name : String) (itype : Option String)
    (hs : s.WellFormed) : Meets .any (newPointer ty name itype) s fun v t =>
      s.Builds t ∧ t.arena.isPointer v ∧ t.arena.OwnsFrom s.solver.cells.size v := by
  have hfurnishes : Meets .any (newPointer ty name itype) s fun _ t => s.Furnishes t :=
    newPointerOver_furnishes (fun s => newPointee_furnishes name s ty) s
  have hboth := hfurnishes.both (newPointer_from ty name itype hs)
  exact hboth.mono fun v t _ ⟨hst, hcreates, hv⟩ => ⟨⟨hcreates, hst⟩, hv⟩

/-! ## Declarations -/

/-- A new variable is bounded with the atoms that came with it. -/
theorem Builds.bounded {v : VarId} {c : Category} (h : s.Builds t)
    (hown : t.arena.OwnsFrom s.solver.cells.size v) (htw : t.Records w)
    (hbounds : ∀ d ∈ w.solver.constraints, d ∈ t.solver.constraints ∨ BoundOn t.arena c v d) :
    s.Builds w := by
  refine ⟨h.toCreates.trans htw.creates, fun d hd => ?_, ?_⟩
  · rcases hbounds d hd with hd | ⟨a, ha, hd⟩
    · exact h.bounds d hd
    · exact .inr ⟨a, c, hd, hown a ha⟩
  · exact h.stocks.trans (.of_same htw.arena htw.size)

/-- A parameter is built from new atoms alone. -/
theorem newParameter_builds (d : DeclId) (hs : s.WellFormed) :
    Leaves .builds (newParameter u d) s := by
  apply Leaves.bind_lift
  intro p _
  apply Leaves.of_meets (Q := fun _ t => s.Builds t)
  · refine Meets.bind (newPointer_builds _ _ _ hs) fun v t _ ⟨hst, _, hown⟩ => ?_
    split
    · have hbounded : Meets .any (boundBelow v .leastSafe) t fun _ w => s.Builds w :=
        ((boundBelow_adds v .leastSafe t).frame.widen fun _ _ => trivial).mono
          fun _ w _ ⟨htw, hbounds⟩ => hst.bounded hown htw hbounds
      exact Meets.bind (Meets.discard hbounded) fun _ _ _ => Meets.pure
    · exact Meets.pure hst
  · apply (newPointer_failsOnly _ _ _).bind_meets (newPointer_builds _ _ _ hs)
    intro v t _ ⟨hst, hv, _⟩
    split
    · exact (boundBelow_failsOnly (hst.wellFormed hs) (Arena.lt_of_isPointer hv)).discard.bind
        fun _ _ _ => .pure
    · exact .pure
  · exact fun _ _ _ => id

theorem newParameters_builds (ds : List DeclId) (hs : s.WellFormed) :
    Leaves .builds (newParameters u ds) s := by
  induction ds generalizing s with
  | nil => exact .pure
  | cons d rest ih =>
    have hfirst := newParameter_builds (u := u) d hs
    apply hfirst.bind
    intro v t ht
    have hst : s.Builds t := hfirst.of_ends ht
    exact (ih (hst.wellFormed hs)).bind fun _ _ _ => .pure

/-- Wherever the making of a function stops, it has only made variables. -/
theorem newFunction_builds (func : DeclId) (hs : s.WellFormed) :
    Leaves .builds (newFunction u func) s := by
  apply Leaves.bind_lift
  intro d _
  split
  · next signature params _ _ _ =>
    have hreturn : Leaves .builds (newPointer signature.ret d.name none) s :=
      .of_meets (newPointer_builds _ _ _ hs) (newPointer_failsOnly _ _ _) fun _ _ _ h => h.1
    apply hreturn.bind
    intro r t ht
    have hst : s.Builds t := hreturn.of_ends ht
    have hr := ((newPointer_meets _ _ _ s).of_ends ht).2
    have hparams := newParameters_builds (u := u) params (hst.wellFormed hs)
    apply hparams.bind
    intro slots w hw
    have htw : t.Builds w := hparams.of_ends hw
    have hslots := ((newParameters_meets u params t).of_ends hw).2
    exact ⟨(allocate_function_meets (htw.arena.isPointer hr) hslots).1, furnishes_push_function w _⟩
  · exact .fault

end Session

end CheckedPointers
