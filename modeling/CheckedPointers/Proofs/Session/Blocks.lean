import CheckedPointers.Proofs.Session.Building
import CheckedPointers.Proofs.Session.Order

/-!
Atoms in blocks. What is made for a type or for a declaration owns the next atoms, as many as the
levels ask for, and a walk through it meets them in the order in which they came.
-/
namespace CheckedPointers

open Op
open CType (typedef)

namespace CType

mutual

/-- The levels of a type and of the function that they lead to: those of its return type and of
its parameter types. -/
def levels : CType → Nat
  | .pointer inner => inner.levels + 1
  | .array elem _ => elem.levels + 1
  | .typedef _ underlying => underlying.levels
  | .function ret params _ _ => ret.levels + levelsAll params
  | .builtin _ | .record _ => 0

def levelsAll : List CType → Nat
  | [] => 0
  | ty :: rest => ty.levels + levelsAll rest

end

/-- The pointer levels of a type are among all the levels that it leads to. -/
theorem depth_le_levels (ty : CType) : ty.depth ≤ ty.levels := by
  induction ty using depth.induct with
  | case1 inner ih => simpa only [depth, levels, Nat.add_le_add_iff_right] using ih
  | case2 elem _ ih => simpa only [depth, levels, Nat.add_le_add_iff_right] using ih
  | case3 _ underlying ih => simpa only [depth, levels] using ih
  | case4 ty hpointer harray htypedef =>
    cases ty with
    | pointer inner => exact absurd rfl (hpointer inner)
    | array elem size => exact absurd rfl (harray elem size)
    | typedef name underlying => exact absurd rfl (htypedef name underlying)
    | _ => exact Nat.zero_le _

end CType

namespace TranslationUnit

/-- The levels of a parameter declaration; one without a type counts as an `int`. -/
def parameterLevels (u : TranslationUnit) (d : DeclId) : Nat :=
  match u.decl d with
  | .ok p => (p.ty?.getD .int).levels
  | .error _ => 0

def parametersLevels (u : TranslationUnit) : List DeclId → Nat
  | [] => 0
  | d :: rest => u.parameterLevels d + u.parametersLevels rest

def functionLevels (u : TranslationUnit) (d : Decl) : Nat :=
  match d.kind with
  | .function signature params _ _ => signature.ret.levels + u.parametersLevels params
  | _ => 0

end TranslationUnit

namespace Arena

variable {arena : Arena} {n : Nat} {v : VarId} {below : List Atom}

/-- What the levels of a pointer lead to owns these atoms; nothing owns none. -/
def LeadsTo (arena : Arena) (function : Option VarId) (atoms : List Atom) : Prop :=
  match function with
  | some f => arena.isFunction f ∧ arena.atoms? f = some atoms
  | none => atoms = []

/-- A pointer owns its own levels, then what it leads to. -/
theorem WellFormed.atoms_pointer (h : arena.WellFormed n) {p : PointerVariable}
    (hp : arena.pointer? v = some p) (hbelow : arena.LeadsTo p.function below) :
    arena.atoms? v = some (p.atoms ++ below) := by
  have hget := getElem?_of_pointer? hp
  cases hfun : p.function with
  | none =>
    obtain rfl : below = [] := by simpa only [LeadsTo, hfun] using hbelow
    simp [atoms?, atomsWithin, hget, hfun]
  | some f =>
    obtain ⟨-, hatoms⟩ : arena.isFunction f ∧ arena.atoms? f = some below := by
      simpa only [LeadsTo, hfun] using hbelow
    have hlt := (h.attached hp hfun).1
    simp [atoms?, atomsWithin, hget, hfun, atomsWithin_mono hatoms hlt]

def SlotsOwn (arena : Arena) (slots : List VarSet) (atoms : List Atom) : Prop :=
  ∃ owned, (slots.flatMap VarSet.members).mapM arena.atoms? = some owned ∧ owned.flatten = atoms

theorem SlotsOwn.nil : arena.SlotsOwn [] [] := ⟨[], rfl, rfl⟩

theorem SlotsOwn.cons {slots : List VarSet} {atoms : List Atom} (hv : arena.atoms? v = some atoms)
    (h : arena.SlotsOwn slots below) : arena.SlotsOwn (.singleton v :: slots) (atoms ++ below) := by
  obtain ⟨owned, howned, rfl⟩ := h
  refine ⟨atoms :: owned, ?_, List.flatten_cons⟩
  rw [List.flatMap_cons]
  change (v :: slots.flatMap VarSet.members).mapM arena.atoms? = some (atoms :: owned)
  rw [List.mapM_cons, hv, howned]
  rfl

theorem SlotsOwn.grows {arena' : Arena} {slots : List VarSet} (h : arena.SlotsOwn slots below)
    (hg : arena.Grows arena') : arena'.SlotsOwn slots below := by
  obtain ⟨owned, howned, hbelow⟩ := h
  exact ⟨owned, mapM_eq_some howned fun _ _ _ => hg.atomsWithin_eq, hbelow⟩

/-- A function owns what its slots own, the return before the parameters. -/
theorem WellFormed.atoms_function (h : arena.WellFormed n) {f : FunctionVariable}
    (hf : arena.function? v = some f) (hslots : arena.SlotsOwn f.slots below) :
    arena.atoms? v = some below := by
  obtain ⟨owned, howned, rfl⟩ := hslots
  have hwalk : (f.slots.flatMap VarSet.members).mapM (arena.atomsWithin v) = some owned := by
    refine mapM_eq_some howned fun w hw atoms hatoms => ?_
    obtain ⟨slot, hslot, hmem⟩ := List.mem_flatMap.1 hw
    exact atomsWithin_mono hatoms (h.slot_lt hf hslot hmem).1
  simp [atoms?, atomsWithin, getElem?_of_function? hf, hwalk]

end Arena

namespace Session

variable {s t w : Session} {u : TranslationUnit} {k : Nat} {v : VarId}

/-- `k` atoms are new, and the variable owns them in the order in which they came. -/
structure GivesBlock (s t : Session) (k : Nat) (v : VarId) : Prop where
  atoms : t.arena.atoms? v = some (List.range' s.solver.cells.size k)
  size : t.solver.cells.size = s.solver.cells.size + k

structure LeadsToBlock (s t : Session) (k : Nat) (function : Option VarId) : Prop where
  atoms : t.arena.LeadsTo function (List.range' s.solver.cells.size k)
  size : t.solver.cells.size = s.solver.cells.size + k

structure FillsBlock (s t : Session) (k : Nat) (slots : List VarSet) : Prop where
  pointers : t.HoldPointers slots
  atoms : t.arena.SlotsOwn slots (List.range' s.solver.cells.size k)
  size : t.solver.cells.size = s.solver.cells.size + k

theorem FillsBlock.nil : s.FillsBlock s 0 [] :=
  ⟨fun _ hslot => absurd hslot List.not_mem_nil, .nil, rfl⟩

/-- The block of the first slot comes before those of the others. -/
theorem FillsBlock.cons {m : Nat} {slots : List VarSet} (hv : s.GivesBlock t k v)
    (hptr : t.arena.isPointer v) (htw : t.arena.Grows w.arena) (h : t.FillsBlock w m slots) :
    s.FillsBlock w (k + m) (.singleton v :: slots) := by
  have hrest := h.atoms
  rw [hv.size] at hrest
  refine ⟨h.pointers.cons hptr htw, ?_, ?_⟩
  · rw [← List.range'_append_1]
    exact .cons (htw.atomsWithin_eq hv.atoms) hrest
  · rw [h.size, hv.size, Nat.add_assoc]

/-! ## Declared types -/

/-- A new variable uses no atom. -/
theorem allocate_keeps {x : Variable} (hx : s.arena.Admits s.solver.cells.size x) :
    Meets .creates (allocate x) s fun v t => t.arena[v]? = some x ∧ t.solver = s.solver := by
  refine (allocate_meets hx).run.mono fun v t _ ⟨hends, hv⟩ => ⟨hv, ?_⟩
  cases ends_modifyGet.1 hends
  rfl

/-- The block of a pointer: the atoms of its levels, then the block of what it leads to. -/
theorem newPointerOver_block {ty : CType} {name : String} {itype : Option String}
    {pointee : Op (Option VarId)} (hs : s.WellFormed)
    (hp : ∀ t, t.WellFormed →
      Meets .creates pointee t fun o w => t.LeadsToBlock w (ty.levels - ty.depth) o) :
    Meets .creates (newPointerOver ty name itype pointee) s fun v t =>
      t.arena.isPointer v ∧ s.GivesBlock t ty.levels v := by
  refine Meets.bind ((freshAtoms_meets _ s).both (freshAtoms_answers _ s))
    fun atoms t (hst : s.Creates t) ⟨hlt, _, hatoms, _, _, hsize⟩ => ?_
  have ht := hst.wellFormed hs
  refine Meets.bind (hp t ht) fun o w (htw : t.Creates w) ho => ?_
  -- the pointer comes last and uses no atom, so the block of what it leads to is as it was
  have hw := htw.wellFormed ht
  have hfun : ∀ f, o = some f → w.arena.isFunction f := by
    rintro f rfl
    exact ho.atoms.1
  have hadmits : w.arena.Admits w.solver.cells.size
      (.pointer ⟨atoms, ty.bottom.display, name, o, ty.isArray, itype⟩) :=
    ⟨hfun, fun a ha => Nat.lt_of_lt_of_le (hlt a ha) htw.solver.size_le⟩
  refine (allocate_keeps hadmits).mono fun v z (hwz : w.Creates z) ⟨hv, hsolver⟩ => ?_
  have hptr := Arena.pointer?_of_getElem? hv
  refine ⟨Arena.isPointer_iff.2 ⟨_, hptr⟩, ?_, ?_⟩
  · have hleads : z.arena.LeadsTo o
        (List.range' (s.solver.cells.size + ty.depth) (ty.levels - ty.depth)) := by
      have hbelow := ho.atoms
      rw [hsize] at hbelow
      cases o with
      | none => exact hbelow
      | some f => exact ⟨hwz.arena.isFunction hbelow.1, hwz.arena.atomsWithin_eq hbelow.2⟩
    rw [(hwz.wellFormed hw).arena.atoms_pointer hptr hleads, hatoms, List.range'_append_1,
      Nat.add_sub_cancel' ty.depth_le_levels]
  · rw [hsolver, ho.size, hsize, Nat.add_assoc, Nat.add_sub_cancel' ty.depth_le_levels]

/-- The block of a function: that of its slots. -/
theorem allocate_function_block {name : String} {r : VarId} {slots : List VarSet}
    {hasBody hasPrototype : Bool} {signature : Option Signature} (hs : t.WellFormed)
    (h : s.FillsBlock t k (.singleton r :: slots)) :
    Meets .creates
      (allocate (.function ⟨name, .singleton r, slots, hasBody, hasPrototype, signature⟩)) t
      fun v w => w.arena.isFunction v ∧ s.GivesBlock w k v := by
  have hadmits : t.arena.Admits t.solver.cells.size
      (.function ⟨name, .singleton r, slots, hasBody, hasPrototype, signature⟩) := by
    intro slot hslot
    obtain ⟨p, rfl, hp⟩ := h.pointers slot hslot
    exact .inr ⟨p, rfl, Arena.lt_of_isPointer hp, hp⟩
  refine (allocate_keeps hadmits).mono fun v w (htw : t.Creates w) ⟨hv, hsolver⟩ => ?_
  have hfun := Arena.function?_of_getElem? hv
  refine ⟨Arena.isFunction_iff.2 ⟨_, hfun⟩, ?_, hsolver ▸ h.size⟩
  exact (htw.wellFormed hs).arena.atoms_function hfun (h.atoms.grows htw.arena)

mutual

/-- The levels themselves have their atoms before the function is made. -/
theorem newPointee_block (name : String) {s : Session} (hs : s.WellFormed) : (ty : CType) →
    Meets .creates (newPointee name ty) s fun o t => s.LeadsToBlock t (ty.levels - ty.depth) o
  | .pointer inner => by
    rw [newPointee, CType.levels, CType.depth, Nat.add_sub_add_right]
    exact newPointee_block name hs inner
  | .array elem _ => by
    rw [newPointee, CType.levels, CType.depth, Nat.add_sub_add_right]
    exact newPointee_block name hs elem
  | .typedef _ underlying => by
    rw [newPointee, CType.levels, CType.depth]
    exact newPointee_block name hs underlying
  | .function ret params variadic hasPrototype => by
    rw [newPointee]
    refine Meets.bind (newPointerOver_block hs fun t ht => newPointee_block name ht ret)
      fun r t (hst : s.Creates t) ⟨hr, hblock⟩ => ?_
    have ht := hst.wellFormed hs
    refine Meets.bind (newSlots_block ht params) fun slots w (htw : t.Creates w) hslots => ?_
    refine Meets.bind (allocate_function_block (htw.wellFormed ht)
      (hslots.cons hblock hr htw.arena)) fun v z _ ⟨hv, hall⟩ => Meets.pure ?_
    exact ⟨⟨hv, hall.atoms⟩, hall.size⟩
  | .builtin _ => by
    rw [newPointee]
    exact Meets.pure ⟨rfl, rfl⟩
  | .record _ => by
    rw [newPointee]
    exact Meets.pure ⟨rfl, rfl⟩

theorem newSlots_block {s : Session} (hs : s.WellFormed) : (tys : List CType) →
    Meets .creates (newSlots tys) s fun slots t => s.FillsBlock t (CType.levelsAll tys) slots
  | [] => by
    rw [newSlots]
    exact Meets.pure .nil
  | ty :: rest => by
    rw [newSlots]
    refine Meets.bind (newPointerOver_block hs fun t ht => newPointee_block "" ht ty)
      fun p t (hst : s.Creates t) ⟨hp, hblock⟩ => ?_
    have ht := hst.wellFormed hs
    refine Meets.bind (newSlots_block ht rest) fun slots w (htw : t.Creates w) hslots => ?_
    exact Meets.pure (hslots.cons hblock hp htw.arena)

end

theorem newPointer_block (ty : CType) (name : String) (itype : Option String)
    (hs : s.WellFormed) : Meets .creates (newPointer ty name itype) s fun v t =>
      t.arena.isPointer v ∧ s.GivesBlock t ty.levels v :=
  newPointerOver_block hs fun _ ht => newPointee_block name ht ty

/-! ## Declarations -/

/-- Bounding a new parameter uses no atom. -/
theorem newParameter_block (u : TranslationUnit) (d : DeclId) (hs : s.WellFormed) :
    Meets .creates (newParameter u d) s fun v t =>
      t.arena.isPointer v ∧ s.GivesBlock t (u.parameterLevels d) v := by
  refine Meets.bind_lift fun p hp => ?_
  have hlevels : u.parameterLevels d = (p.ty?.getD .int).levels := by
    rw [TranslationUnit.parameterLevels, hp]
  rw [hlevels]
  refine Meets.bind (newPointer_block _ _ _ hs) fun v t _ ⟨hv, hblock⟩ => ?_
  split
  · have hbounded : Meets .creates (boundBelow v .leastSafe) t fun _ w => t.Records w :=
      (boundBelow_meets v .leastSafe t).frame.to_creates.mono fun _ _ _ h => h.1
    refine Meets.bind (Meets.discard hbounded) fun _ w _ (htw : t.Records w) => Meets.pure ?_
    rw [htw.arena]
    exact ⟨hv, htw.arena ▸ hblock.atoms, htw.size.trans hblock.size⟩
  · exact Meets.pure ⟨hv, hblock⟩

/-- The parameters fill the block in order. -/
theorem newParameters_block (u : TranslationUnit) (ds : List DeclId) (hs : s.WellFormed) :
    Meets .creates (newParameters u ds) s fun slots t =>
      s.FillsBlock t (u.parametersLevels ds) slots := by
  induction ds generalizing s with
  | nil => exact Meets.pure .nil
  | cons d rest ih =>
    refine Meets.bind (newParameter_block u d hs) fun p t (hst : s.Creates t) ⟨hp, hblock⟩ => ?_
    refine Meets.bind (ih (hst.wellFormed hs)) fun slots w (htw : t.Creates w) hslots => ?_
    exact Meets.pure (hslots.cons hblock hp htw.arena)

/-- A new function owns a block of new atoms: return first, then parameters in order. -/
theorem newFunction_block (u : TranslationUnit) {func : DeclId} {d : Decl}
    (hd : u.decl func = .ok d) (hs : s.WellFormed) :
    Meets .creates (newFunction u func) s fun v t =>
      t.arena.isFunction v ∧ s.GivesBlock t (u.functionLevels d) v := by
  refine Meets.bind_lift fun d' hd' => ?_
  obtain rfl := Except.ok.inj (hd.symm.trans hd')
  split
  · next signature params _ _ hkind =>
    rw [TranslationUnit.functionLevels, hkind]
    refine Meets.bind (newPointer_block _ _ _ hs) fun r t (hst : s.Creates t) ⟨hr, hblock⟩ => ?_
    have ht := hst.wellFormed hs
    refine Meets.bind (newParameters_block u params ht) fun slots w (htw : t.Creates w) hslots => ?_
    exact allocate_function_block (htw.wellFormed ht) (hslots.cons hblock hr htw.arena)
  · exact Meets.fault

/-- A function type leads to a function. -/
theorem some_of_newPointee {name : String} {signature : Signature} {o : Option VarId}
    (h : (newPointee name signature.toType).Ends s o t) : ∃ v, o = some v := by
  rw [Signature.toType, newPointee] at h
  obtain ⟨_, _, -, h⟩ := ends_bind.1 h
  obtain ⟨_, _, -, h⟩ := ends_bind.1 h
  obtain ⟨v, _, -, h⟩ := ends_bind.1 h
  obtain ⟨rfl, -⟩ := ends_pure.1 h
  exact ⟨v, rfl⟩

/-- What is made for a type, for a function type, or for a function declaration whose parameters
the unit lists, owns the new atoms in the order in which they came, as many as there are levels. -/
theorem Reachable.owns_blocks {options : Options} (h : Reachable options s) :
    (∀ ty name itype, ∃ v t, (newPointer ty name itype).Ends s v t ∧ s.GivesBlock t ty.levels v) ∧
    (∀ name (signature : Signature), ∃ v t, (newPointee name signature.toType).Ends s (some v) t ∧
      s.GivesBlock t signature.toType.levels v) ∧
    ∀ (u : TranslationUnit) func d, u.decl func = .ok d → d.isFunction →
      (∀ p ∈ d.params, p < u.decls.size) → ∃ v t, (newFunction u func).Ends s v t ∧
        s.GivesBlock t (u.functionLevels d) v := by
  have hs := h.wellFormed
  refine ⟨fun ty name itype => ?_, fun name signature => ?_, fun u func d hd hfun hparams => ?_⟩
  · obtain ⟨v, t, hends⟩ := (newPointer_failsOnly ty name itype).ends
    exact ⟨v, t, hends, ((newPointer_block ty name itype hs).of_ends hends).2.2⟩
  · obtain ⟨o, t, hends⟩ := (newPointee_failsOnly name s signature.toType).ends
    have hblock := ((newPointee_block name hs signature.toType).of_ends hends).2
    obtain ⟨v, rfl⟩ := some_of_newPointee hends
    exact ⟨v, t, hends, hblock.atoms.2, hblock.size⟩
  · have hparams' : ∀ d', u.decl func = .ok d' → ∀ p ∈ d'.params, p < u.decls.size := by
      intro d' hd'
      obtain rfl := Except.ok.inj (hd.symm.trans hd')
      exact hparams
    have hkind : ∀ d', u.decl func = .ok d' → ¬ d'.isFunction → False := by
      intro d' hd' hnot
      obtain rfl := Except.ok.inj (hd.symm.trans hd')
      exact hnot hfun
    obtain ⟨v, t, hends⟩ :=
      (newFunction_failsOnly hparams' hs (TranslationUnit.lt_of_decl hd) hkind).ends
    exact ⟨v, t, hends, ((newFunction_block u hd hs).of_ends hends).2.2⟩

/-- A pointer to a function that returns a pointer and has parameters of two levels each, one of
them through a pointer to a function. -/
def callbackType : CType :=
  let char : CType := .builtin "char"
  let strings : CType := typedef "strings" (.array (.pointer char) none)
  .pointer (.function (.pointer char)
    [strings, .pointer (.function .int [.pointer char] false true)] false true)

/-- A session with ten atoms: the callback gets the next six, or the declaration of `f` the next
three. -/
theorem Reachable.owns_blocks_quotingUnit :
    ∃ s v t f w, Reachable .default s ∧ s.solver.cells.size = 10 ∧
      (newPointer callbackType "cb" none).Ends s v t ∧
      t.arena.atoms? v = some [10, 11, 12, 13, 14, 15] ∧ t.solver.cells.size = 16 ∧
      (newFunction quotingUnit 1).Ends s f w ∧ w.arena.atoms? f = some [10, 11, 12] ∧
      w.solver.cells.size = 13 := by
  obtain ⟨_, s, hrequests, hsize⟩ := exists_ends (x := Session.requests quotingRequests)
    (s := .new .default) (g := fun _ s => s.solver.cells.size) (b := 10) (by decide +kernel)
  have hs : Reachable .default s := Reachable.new.requests hrequests
  obtain ⟨hpointers, -, hfunctions⟩ := hs.owns_blocks
  obtain ⟨v, t, hv, hblock⟩ := hpointers callbackType "cb" none
  obtain ⟨f, w, hf, hblock'⟩ := hfunctions quotingUnit 1 _ rfl rfl (by decide)
  have hlevels : callbackType.levels = 6 := rfl
  have hlevels' : quotingUnit.functionLevels quotingUnit.decls[1] = 3 := rfl
  refine ⟨s, v, t, f, w, hs, hsize, hv, ?_, ?_, hf, ?_, ?_⟩
  · rw [hblock.atoms, hsize, hlevels]
    rfl
  · rw [hblock.size, hsize, hlevels]
  · rw [hblock'.atoms, hsize]
    exact congrArg (fun k => some (List.range' 10 k)) hlevels'
  · rw [hblock'.size, hsize]
    exact congrArg (10 + ·) hlevels'

end Session

end CheckedPointers
