import CheckedPointers.Proofs.Session.Denotation
import CheckedPointers.Proofs.Session.Placing
import CheckedPointers.Proofs.Variable.Shape

/-!
Which variables have atoms in common. Every variable is made with new atoms, so what stands at an
anchor shares atoms with nothing else there but, if it is a function, with its own parameters; and
what is made on demand shares them with nothing at all.
-/
namespace CheckedPointers

open Op

namespace Arena

variable {arena arena' : Arena} {n m : Nat} {v w : VarId} {a : Atom}

theorem lt_of_owns (h : arena.Owns v a) : v < arena.size := by
  obtain ⟨atoms, hatoms, -⟩ := h
  obtain ⟨x, hx, -⟩ := Option.bind_eq_some_iff.1 hatoms
  exact (Array.getElem?_eq_some_iff.1 hx).1

/-- What a variable owns is there. -/
theorem WellFormed.atom_lt_of_owns (h : arena.WellFormed n) (ha : arena.Owns v a) : a < n := by
  obtain ⟨atoms, hatoms, hall⟩ := h.exists_atoms (lt_of_owns ha)
  obtain ⟨atoms', hatoms', hmem⟩ := ha
  obtain rfl := Option.some.inj (hatoms.symm.trans hatoms')
  exact hall a hmem

/-- What a variable owns stays all that it owns. -/
theorem WellFormed.owns_iff (h : arena.WellFormed n) (hg : arena.Grows arena')
    (hv : v < arena.size) : arena'.Owns v a ↔ arena.Owns v a := by
  obtain ⟨atoms, hatoms, -⟩ := h.exists_atoms hv
  have hatoms' : arena'.atoms? v = some atoms := hg.atomsWithin_eq hatoms
  simp [Owns, hatoms, hatoms']

def Shares (arena : Arena) (v w : VarId) : Prop := ∃ a, arena.Owns v a ∧ arena.Owns w a

theorem Shares.symm (h : arena.Shares v w) : arena.Shares w v := h.imp fun _ => And.symm

/-- Variables that are there share what they shared, however the arena grows. -/
theorem WellFormed.shares_iff (h : arena.WellFormed n) (hg : arena.Grows arena')
    (hv : v < arena.size) (hw : w < arena.size) : arena'.Shares v w ↔ arena.Shares v w :=
  exists_congr fun _ => and_congr (h.owns_iff hg hv) (h.owns_iff hg hw)

/-- All that the variable owns came after the first `n` atoms. -/
def OwnsFrom (arena : Arena) (n : Nat) (v : VarId) : Prop := ∀ a, arena.Owns v a → n ≤ a

theorem OwnsFrom.mono (h : arena.OwnsFrom n v) (hmn : m ≤ n) : arena.OwnsFrom m v :=
  fun a ha => Nat.le_trans hmn (h a ha)

theorem OwnsFrom.grows {k : Nat} (h : arena.OwnsFrom n v) (hs : arena.WellFormed k)
    (hg : arena.Grows arena') (hv : v < arena.size) : arena'.OwnsFrom n v :=
  fun a ha => h a ((hs.owns_iff hg hv).1 ha)

/-- A new variable shares nothing with an old one. -/
theorem OwnsFrom.not_shares (h : arena'.OwnsFrom n v) (hs : arena.WellFormed n)
    (hg : arena.Grows arena') (hw : w < arena.size) : ¬ arena'.Shares v w := by
  rintro ⟨a, hv, hw'⟩
  have hlt := hs.atom_lt_of_owns ((hs.owns_iff hg hw).1 hw')
  exact absurd (h a hv) (Nat.not_le.2 hlt)

def ParameterOf (arena : Arena) (v w : VarId) : Prop :=
  ∃ f, arena.function? w = some f ∧ ∃ slot ∈ f.params, v ∈ slot

theorem ParameterOf.grows (h : arena.ParameterOf v w) (hg : arena.Grows arena') :
    arena'.ParameterOf v w := by
  obtain ⟨f, hf, hslot⟩ := h
  exact ⟨f, hg.function? hf, hslot⟩

/-- They are one, or one is a parameter of the other. -/
def Kin (arena : Arena) (v w : VarId) : Prop :=
  v = w ∨ arena.ParameterOf v w ∨ arena.ParameterOf w v

theorem Kin.grows (h : arena.Kin v w) (hg : arena.Grows arena') : arena'.Kin v w :=
  h.imp_right (.imp (·.grows hg) (·.grows hg))

theorem Kin.symm (h : arena.Kin v w) : arena.Kin w v := h.imp Eq.symm Or.symm

end Arena

namespace Session

variable {s t w : Session} {n : Nat}

/-! ## New variables -/

theorem freshAtom_from (s : Session) :
    Meets .creates freshAtom s fun a _ => a = s.solver.cells.size :=
  Meets.modifyGet ((freshAtom_meets s).of_ends (ends_modifyGet.2 rfl)).1 rfl

theorem freshAtoms_from (n : Nat) (s : Session) :
    Meets .creates (freshAtoms n) s fun atoms _ => ∀ a ∈ atoms, s.solver.cells.size ≤ a := by
  induction n generalizing s with
  | zero => exact Meets.pure (by simp)
  | succ n ih =>
    refine Meets.bind (freshAtom_from s) fun a t (hst : s.Creates t) ha => ?_
    refine Meets.bind (ih t) fun atoms u _ hatoms => Meets.pure ?_
    refine List.forall_mem_cons.2 ⟨Nat.le_of_eq ha.symm, fun b hb => ?_⟩
    exact Nat.le_trans hst.solver.size_le (hatoms b hb)

/-- A function whose slots own new atoms owns new atoms. -/
theorem ownsFrom_function {v : VarId} {f : FunctionVariable} (hs : s.WellFormed)
    (hf : s.arena.function? v = some f)
    (hslots : ∀ slot ∈ f.slots, ∀ p ∈ slot, s.arena.OwnsFrom n p) : s.arena.OwnsFrom n v := by
  intro a ha
  obtain ⟨slot, hslot, p, hp, ha⟩ := (hs.arena.owns_function hf).1 ha
  exact hslots slot hslot p hp a ha

/-- A pointer over something new is itself new throughout. -/
theorem newPointerOver_from {ty : CType} {name : String} {itype : Option String}
    {pointee : Op (Option VarId)} (hs : s.WellFormed)
    (hp : ∀ t, t.WellFormed → Meets .creates pointee t fun o z => ∀ f, o = some f →
      z.arena.isFunction f ∧ z.arena.OwnsFrom t.solver.cells.size f) :
    Meets .creates (newPointerOver ty name itype pointee) s fun v t =>
      t.arena.isPointer v ∧ t.arena.OwnsFrom s.solver.cells.size v := by
  refine Meets.bind ((freshAtoms_meets _ s).both (freshAtoms_from _ s))
    fun atoms t (hst : s.Creates t) ⟨hlt, _, hfrom⟩ => ?_
  have ht := hst.wellFormed hs
  refine Meets.bind (hp t ht) fun o w (htw : t.Creates w) ho => ?_
  have hw := htw.wellFormed ht
  have hadmits : w.arena.Admits w.solver.cells.size
      (.pointer ⟨atoms, ty.bottom.display, name, o, ty.isArray, itype⟩) :=
    ⟨fun f hf => (ho f hf).1, fun a ha => Nat.lt_of_lt_of_le (hlt a ha) htw.solver.size_le⟩
  refine (allocate_meets hadmits).mono fun v z (hwz : w.Creates z) hv => ?_
  have hptr := Arena.pointer?_of_getElem? hv
  refine ⟨Arena.isPointer_iff.2 ⟨_, hptr⟩, fun a ha => ?_⟩
  rcases ((hwz.wellFormed hw).arena.owns_pointer hptr).1 ha with ha | ⟨f, rfl, ha⟩
  · exact hfrom a ha
  · obtain ⟨hfun, hown⟩ := ho f rfl
    have hown := (hown.mono hst.solver.size_le).grows hw.arena hwz.arena
      (Arena.lt_of_isFunction hfun)
    exact hown a ha

def HoldNew (n : Nat) (s : Session) (slots : List VarSet) : Prop :=
  s.HoldPointers slots ∧ ∀ slot ∈ slots, ∀ p ∈ slot, s.arena.OwnsFrom n p

theorem HoldNew.nil : HoldNew n s [] :=
  ⟨fun _ hslot => absurd hslot List.not_mem_nil, fun _ hslot => absurd hslot List.not_mem_nil⟩

theorem HoldNew.lt {slots : List VarSet} (h : HoldNew n s slots) {slot : VarSet}
    (hslot : slot ∈ slots) {p : VarId} (hp : p ∈ slot) : p < s.arena.size := by
  obtain ⟨q, rfl, hq⟩ := h.1 slot hslot
  exact (VarSet.mem_singleton q p).1 hp ▸ Arena.lt_of_isPointer hq

theorem HoldNew.creates {slots : List VarSet} (h : HoldNew n s slots) (hs : s.WellFormed)
    (hst : s.Creates t) : HoldNew n t slots := by
  refine ⟨fun slot hslot => ?_, fun slot hslot p hp =>
    (h.2 slot hslot p hp).grows hs.arena hst.arena (h.lt hslot hp)⟩
  obtain ⟨p, rfl, hp⟩ := h.1 slot hslot
  exact ⟨p, rfl, hst.arena.isPointer hp⟩

theorem HoldNew.cons {m : Nat} {p : VarId} {slots : List VarSet} (hs : s.WellFormed)
    (hp : s.arena.isPointer p) (hown : s.arena.OwnsFrom n p) (hst : s.Creates t) (hnm : n ≤ m)
    (h : HoldNew m t slots) : HoldNew n t (.singleton p :: slots) := by
  refine ⟨h.1.cons hp hst.arena, List.forall_mem_cons.2 ⟨fun q hq => ?_, fun slot hslot q hq => ?_⟩⟩
  · rw [(VarSet.mem_singleton p q).1 hq]
    exact hown.grows hs.arena hst.arena (Arena.lt_of_isPointer hp)
  · exact (h.2 slot hslot q hq).mono hnm

theorem allocate_function_from {name : String} {r : VarId} {slots : List VarSet}
    {hasBody hasPrototype : Bool} {signature : Option Signature} (hs : s.WellFormed)
    (hslots : HoldNew n s (.singleton r :: slots)) :
    Meets .creates
      (allocate (.function ⟨name, .singleton r, slots, hasBody, hasPrototype, signature⟩)) s
      fun v t => t.arena.function? v =
        some ⟨name, .singleton r, slots, hasBody, hasPrototype, signature⟩ ∧
        t.arena.OwnsFrom n v := by
  have ⟨hpointers, hown⟩ := hslots
  have hr : s.arena.isPointer r := by
    obtain ⟨p, hp, hptr⟩ := hpointers _ List.mem_cons_self
    rwa [(VarSet.mem_singleton p r).1 (hp ▸ (VarSet.mem_singleton r r).2 rfl)]
  refine (allocate_function_meets hr fun slot hslot => hpointers slot
    (List.mem_cons_of_mem _ hslot)).mono fun v t (hst : s.Creates t) hv => ⟨hv, ?_⟩
  refine ownsFrom_function (hst.wellFormed hs) hv fun slot hslot p hp => ?_
  exact (hown slot hslot p hp).grows hs.arena hst.arena (hslots.lt hslot hp)

mutual

/-- A function at the bottom of a type's levels is made with atoms of its own. -/
theorem newPointee_from (name : String) {s : Session} (hs : s.WellFormed) : (ty : CType) →
    Meets .creates (newPointee name ty) s fun o t => ∀ f, o = some f →
      t.arena.isFunction f ∧ t.arena.OwnsFrom s.solver.cells.size f
  | .pointer inner => by
    rw [newPointee]
    exact newPointee_from name hs inner
  | .array elem _ => by
    rw [newPointee]
    exact newPointee_from name hs elem
  | .typedef _ underlying => by
    rw [newPointee]
    exact newPointee_from name hs underlying
  | .function ret params variadic hasPrototype => by
    rw [newPointee]
    refine Meets.bind (newPointerOver_from hs fun t ht => newPointee_from name ht ret)
      fun r t (hst : s.Creates t) ⟨hr, hown⟩ => ?_
    have ht := hst.wellFormed hs
    refine Meets.bind (newSlots_from ht params) fun slots w (htw : t.Creates w) hslots => ?_
    have hall := hslots.cons ht hr hown htw hst.solver.size_le
    refine Meets.bind (allocate_function_from (htw.wellFormed ht) hall)
      fun v z _ ⟨hv, hvown⟩ => Meets.pure ?_
    rintro f ⟨⟩
    exact ⟨Arena.isFunction_iff.2 ⟨_, hv⟩, hvown⟩
  | .builtin _ => by
    rw [newPointee]
    exact Meets.pure (fun f hf => nomatch hf)
  | .record _ => by
    rw [newPointee]
    exact Meets.pure (fun f hf => nomatch hf)

theorem newSlots_from {s : Session} (hs : s.WellFormed) : (tys : List CType) →
    Meets .creates (newSlots tys) s fun slots t => HoldNew s.solver.cells.size t slots
  | [] => by
    rw [newSlots]
    exact Meets.pure .nil
  | ty :: rest => by
    rw [newSlots]
    refine Meets.bind (newPointerOver_from hs fun t ht => newPointee_from "" ht ty)
      fun p t (hst : s.Creates t) ⟨hp, hown⟩ => ?_
    have ht := hst.wellFormed hs
    refine Meets.bind (newSlots_from ht rest) fun slots w (htw : t.Creates w) hslots => ?_
    exact Meets.pure (hslots.cons ht hp hown htw hst.solver.size_le)

end

theorem newPointer_from (ty : CType) (name : String) (itype : Option String) (hs : s.WellFormed) :
    Meets .creates (newPointer ty name itype) s fun v t =>
      t.arena.isPointer v ∧ t.arena.OwnsFrom s.solver.cells.size v :=
  newPointerOver_from hs fun _ ht => newPointee_from name ht ty

/-- A parameter is made with atoms of its own. -/
theorem newParameter_from (u : TranslationUnit) (d : DeclId) (hs : s.WellFormed) :
    Meets .creates (newParameter u d) s fun v t =>
      t.arena.isPointer v ∧ t.arena.OwnsFrom s.solver.cells.size v := by
  refine Meets.bind_lift fun p _ => ?_
  refine Meets.bind (newPointer_from _ _ _ hs) fun v t (hst : s.Creates t) ⟨hv, hown⟩ => ?_
  split
  · refine Meets.bind (P := fun _ z => z.Bounded .leastSafe v)
      (Meets.discard (boundBelow_meets v .leastSafe t).to_creates)
      fun _ z (htz : t.Creates z) _ => Meets.pure ?_
    exact ⟨htz.arena.isPointer hv,
      hown.grows (hst.wellFormed hs).arena htz.arena (Arena.lt_of_isPointer hv)⟩
  · exact Meets.pure ⟨hv, hown⟩

def SlotsApart (s : Session) (slots : List VarSet) : Prop :=
  ∀ slot ∈ slots, ∀ slot' ∈ slots, ∀ p ∈ slot, ∀ q ∈ slot', s.arena.Shares p q → p = q

/-- New parameters own new atoms, and no two of them share any. -/
theorem newParameters_from (u : TranslationUnit) (ds : List DeclId) (hs : s.WellFormed) :
    Meets .creates (newParameters u ds) s fun slots t =>
      HoldNew s.solver.cells.size t slots ∧ SlotsApart t slots := by
  induction ds generalizing s with
  | nil =>
    exact Meets.pure ⟨.nil, fun _ hslot => absurd hslot List.not_mem_nil⟩
  | cons d rest ih =>
    refine Meets.bind (newParameter_from u d hs) fun p t (hst : s.Creates t) ⟨hp, hown⟩ => ?_
    have ht := hst.wellFormed hs
    refine Meets.bind (ih ht) fun slots w (htw : t.Creates w) ⟨hslots, hapart⟩ => Meets.pure ?_
    refine ⟨hslots.cons ht hp hown htw hst.solver.size_le, ?_⟩
    -- the later ones own atoms that came after those of the first
    have hfirst : ∀ slot ∈ slots, ∀ q ∈ slot, ¬ w.arena.Shares q p := fun slot hslot q hq =>
      (hslots.2 slot hslot q hq).not_shares ht.arena htw.arena (Arena.lt_of_isPointer hp)
    intro slot hslot slot' hslot' q hq q' hq' hshares
    rcases List.mem_cons.1 hslot with rfl | hslot <;> rcases List.mem_cons.1 hslot' with rfl | hslot'
    · rw [(VarSet.mem_singleton p q).1 hq, (VarSet.mem_singleton p q').1 hq']
    · rw [(VarSet.mem_singleton p q).1 hq] at hshares
      exact absurd hshares.symm (hfirst slot' hslot' q' hq')
    · rw [(VarSet.mem_singleton p q').1 hq'] at hshares
      exact absurd hshares (hfirst slot hslot q hq)
    · exact hapart slot hslot slot' hslot' q hq q' hq' hshares

structure NewFunction (n : Nat) (s : Session) (v : VarId) (f : FunctionVariable) : Prop where
  function : s.arena.function? v = some f
  owns : s.arena.OwnsFrom n v
  params : HoldNew n s f.params
  apart : SlotsApart s f.params

/-- A function is made with atoms of its own, and with parameters that stand apart. -/
theorem newFunction_from (u : TranslationUnit) (func : DeclId) (hs : s.WellFormed) :
    Meets .creates (newFunction u func) s fun v t =>
      ∃ f, NewFunction s.solver.cells.size t v f := by
  refine Meets.bind_lift fun d _ => ?_
  split
  · refine Meets.bind (newPointer_from _ _ _ hs) fun r t (hst : s.Creates t) ⟨hr, hown⟩ => ?_
    have ht := hst.wellFormed hs
    refine Meets.bind (newParameters_from u _ ht)
      fun slots w (htw : t.Creates w) ⟨hslots, hapart⟩ => ?_
    have hw := htw.wellFormed ht
    have hsize := hst.solver.size_le
    refine (allocate_function_from hw (hslots.cons ht hr hown htw hsize)).mono
      fun v z (hwz : w.Creates z) ⟨hv, hvown⟩ => ⟨_, hv, hvown, ?_, ?_⟩
    · exact ⟨(hslots.creates hw hwz).1, fun slot hslot p hp =>
        ((hslots.creates hw hwz).2 slot hslot p hp).mono hsize⟩
    · intro slot hslot slot' hslot' p hp q hq hshares
      refine hapart slot hslot slot' hslot' p hp q hq ?_
      exact (hw.arena.shares_iff hwz.arena (hslots.lt hslot hp) (hslots.lt hslot' hq)).1 hshares
  · exact Meets.fault

end Session

end CheckedPointers
