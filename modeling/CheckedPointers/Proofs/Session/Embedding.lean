import CheckedPointers.Proofs.Session.Denotation
import CheckedPointers.Proofs.Variable.Coincidence

/-!
One session inside of another. A renaming says where the atoms and variables of a session stand in
one that knows at least as much: there the variables look the same, what was recorded is recorded,
and what was remembered is remembered.
-/
namespace CheckedPointers

open Op

/-- Where atoms and variables stand elsewhere. -/
structure Renaming where
  atom : Atom → Atom
  var : VarId → VarId

namespace Renaming

protected def id : Renaming := ⟨fun a => a, fun v => v⟩

def nameAtom (ρ : Renaming) (a b : Atom) : Renaming :=
  { ρ with atom := fun x => if x = a then b else ρ.atom x }

def nameVar (ρ : Renaming) (v w : VarId) : Renaming :=
  { ρ with var := fun x => if x = v then w else ρ.var x }

structure Agrees (ρ ρ' : Renaming) (m n : Nat) : Prop where
  atom : ∀ a < m, ρ'.atom a = ρ.atom a
  var : ∀ v < n, ρ'.var v = ρ.var v

variable {ρ ρ' ρ'' : Renaming} {m n m' n' : Nat}

theorem Agrees.refl (ρ : Renaming) (m n : Nat) : ρ.Agrees ρ m n := ⟨fun _ _ => rfl, fun _ _ => rfl⟩

theorem Agrees.trans (h : ρ.Agrees ρ' m n) (h' : ρ'.Agrees ρ'' m' n') (hm : m ≤ m') (hn : n ≤ n') :
    ρ.Agrees ρ'' m n where
  atom a ha := (h'.atom a (Nat.lt_of_lt_of_le ha hm)).trans (h.atom a ha)
  var v hv := (h'.var v (Nat.lt_of_lt_of_le hv hn)).trans (h.var v hv)

theorem agrees_nameAtom (ρ : Renaming) (m n : Nat) (b : Atom) :
    ρ.Agrees (ρ.nameAtom m b) m n := ⟨fun _ ha => if_neg (Nat.ne_of_lt ha), fun _ _ => rfl⟩

theorem agrees_nameVar (ρ : Renaming) (m n : Nat) (w : VarId) :
    ρ.Agrees (ρ.nameVar n w) m n := ⟨fun _ _ => rfl, fun _ hv => if_neg (Nat.ne_of_lt hv)⟩

@[simp] theorem nameAtom_self (ρ : Renaming) (a b : Atom) : (ρ.nameAtom a b).atom a = b :=
  if_pos rfl

@[simp] theorem nameVar_self (ρ : Renaming) (v w : VarId) : (ρ.nameVar v w).var v = w :=
  if_pos rfl

end Renaming

/-! ## Renamed things -/

variable {ρ ρ' : Renaming} {m n : Nat}

def VarSet.rename (ρ : Renaming) (set : VarSet) : VarSet := ⟨set.members.map ρ.var⟩

@[simp] theorem VarSet.rename_empty : VarSet.empty.rename ρ = .empty := rfl

@[simp] theorem VarSet.rename_singleton (v : VarId) :
    (VarSet.singleton v).rename ρ = .singleton (ρ.var v) := rfl

@[simp] theorem VarSet.rename_id (set : VarSet) : set.rename .id = set :=
  congrArg VarSet.mk set.members.map_id

theorem VarSet.mem_rename {set : VarSet} {w : VarId} :
    w ∈ set.rename ρ ↔ ∃ v ∈ set, ρ.var v = w := List.mem_map

theorem VarSet.rename_congr {set : VarSet} (hρ : ρ.Agrees ρ' m n) (h : ∀ v ∈ set, v < n) :
    set.rename ρ' = set.rename ρ :=
  congrArg VarSet.mk (List.map_congr_left fun v hv => hρ.var v (h v hv))

namespace PointerVariable

def rename (ρ : Renaming) (p : PointerVariable) : PointerVariable :=
  { p with atoms := p.atoms.map ρ.atom, function := p.function.map ρ.var }

theorem dereferenced?_rename (p : PointerVariable) :
    (p.rename ρ).dereferenced? = p.dereferenced?.map (rename ρ) := by
  obtain ⟨atoms, _⟩ := p
  rcases atoms with _ | ⟨_, _ | _⟩ <;> rfl

end PointerVariable

namespace FunctionVariable

def rename (ρ : Renaming) (f : FunctionVariable) : FunctionVariable :=
  { f with returns := f.returns.rename ρ, params := f.params.map (VarSet.rename ρ) }

@[simp] theorem slots_rename (f : FunctionVariable) :
    (f.rename ρ).slots = f.slots.map (VarSet.rename ρ) := rfl

@[simp] theorem rename_unknown : unknown.rename ρ = unknown := rfl

@[simp] theorem rename_id (f : FunctionVariable) : f.rename .id = f := by
  have hparams : f.params.map (VarSet.rename .id) = f.params :=
    List.map_id'' VarSet.rename_id f.params
  simp [rename, hparams]

end FunctionVariable

namespace Variable

def rename (ρ : Renaming) : Variable → Variable
  | pointer p => pointer (p.rename ρ)
  | function f => function (f.rename ρ)

/-- Only the first `m` atoms and `n` variables are named. -/
def Within (m n : Nat) : Variable → Prop
  | pointer p => (∀ a ∈ p.atoms, a < m) ∧ ∀ f, p.function = some f → f < n
  | function f => ∀ slot ∈ f.slots, ∀ v ∈ slot, v < n

@[simp] theorem rename_id (x : Variable) : x.rename .id = x := by
  cases x with
  | pointer p => simp [rename, PointerVariable.rename, Renaming.id]
  | function f => simp [rename]

/-- Renamings that agree on what a variable names rename it alike. -/
theorem rename_congr {x : Variable} (hρ : ρ.Agrees ρ' m n) (h : x.Within m n) :
    x.rename ρ' = x.rename ρ := by
  cases x with
  | pointer p =>
    have hatoms : p.atoms.map ρ'.atom = p.atoms.map ρ.atom :=
      List.map_congr_left fun a ha => hρ.atom a (h.1 a ha)
    have hfunction : p.function.map ρ'.var = p.function.map ρ.var :=
      Option.map_congr fun f hf => hρ.var f (h.2 f hf)
    simp only [rename, PointerVariable.rename, hatoms, hfunction]
  | function f =>
    have hreturns : f.returns.rename ρ' = f.returns.rename ρ :=
      VarSet.rename_congr hρ (h _ List.mem_cons_self)
    have hparams : f.params.map (VarSet.rename ρ') = f.params.map (VarSet.rename ρ) :=
      List.map_congr_left fun slot hslot =>
        VarSet.rename_congr hρ (h slot (List.mem_cons_of_mem _ hslot))
    simp only [rename, FunctionVariable.rename, hreturns, hparams]

end Variable

namespace Constraint

def rename (ρ : Renaming) : Constraint → Constraint
  | equal a b => equal (ρ.atom a) (ρ.atom b)
  | atLeast a c => atLeast (ρ.atom a) c

@[simp] theorem rename_id (c : Constraint) : c.rename .id = c := by cases c <;> rfl

theorem rename_congr {c : Constraint} (hρ : ρ.Agrees ρ' m n) (h : c.Known m) :
    c.rename ρ' = c.rename ρ := by
  cases c with
  | equal a b => simp only [rename, hρ.atom a h.1, hρ.atom b h.2]
  | atLeast a c => simp only [rename, hρ.atom a h]

/-- It does not matter whether a constraint is brought into canonical form before or after. -/
theorem normalized_rename (ρ : Renaming) (c : Constraint) :
    (c.normalized.rename ρ).normalized = (c.rename ρ).normalized := by
  cases c with
  | equal a b =>
    by_cases h : b < a
    · rw [normalized, if_pos h]
      exact normalized_equal_comm _ _
    · rw [normalized, if_neg h]
  | atLeast a c => rfl

end Constraint

namespace Arena

variable {arena arena' : Arena} {v : VarId}

/-- A variable of a well-formed arena names nothing beyond the atoms and variables that are there.
-/
theorem WellFormed.within {x : Variable} (h : arena.WellFormed m) (hx : arena[v]? = some x) :
    x.Within m arena.size := by
  cases x with
  | pointer p =>
    have hp := pointer?_of_getElem? hx
    exact ⟨fun a ha => h.atom_lt hp ha, fun f hf => lt_of_isFunction (h.attached hp hf).2⟩
  | function f =>
    intro slot hslot w hw
    exact lt_of_isPointer ((h.slots (function?_of_getElem? hx) hslot).isPointer hw)

theorem Admits.within {x : Variable} (h : arena.Admits m x) : x.Within m arena.size := by
  cases x with
  | pointer p => exact ⟨h.2, fun f hf => lt_of_isFunction (h.1 f hf)⟩
  | function f => exact fun slot hslot w hw => lt_of_isPointer ((h slot hslot).isPointer hw)

def signatures (arena : Arena) (set : VarSet) : List FunctionVariable :=
  set.members.filterMap arena.reachableFunction?

/-- The variables look the same elsewhere. -/
def Embeds (ρ : Renaming) (arena arena' : Arena) : Prop :=
  ∀ (v : VarId) (x : Variable), arena[v]? = some x → arena'[ρ.var v]? = some (x.rename ρ)

namespace Embeds

variable (h : arena.Embeds ρ arena')

include h

theorem pointer?_eq (hv : v < arena.size) :
    arena'.pointer? (ρ.var v) = (arena.pointer? v).map (PointerVariable.rename ρ) := by
  have hx := Array.getElem?_eq_getElem hv
  rw [Arena.pointer?, Arena.pointer?, h v _ hx, hx]
  cases arena[v] <;> rfl

theorem function?_eq (hv : v < arena.size) :
    arena'.function? (ρ.var v) = (arena.function? v).map (FunctionVariable.rename ρ) := by
  have hx := Array.getElem?_eq_getElem hv
  rw [Arena.function?, Arena.function?, h v _ hx, hx]
  cases arena[v] <;> rfl

theorem isFunction_eq (hv : v < arena.size) :
    arena'.isFunction (ρ.var v) = arena.isFunction v := by
  rw [isFunction, h.function?_eq hv, Option.isSome_map]
  rfl

/-- A signature that a variable reaches here is reached there. -/
theorem reachableFunction?_eq (hwf : arena.WellFormed m) (hv : v < arena.size) :
    arena'.reachableFunction? (ρ.var v) =
      (arena.reachableFunction? v).map (FunctionVariable.rename ρ) := by
  have hx := Array.getElem?_eq_getElem hv
  have hwithin := hwf.within hx
  simp only [reachableFunction?, reachable?, h v _ hx, hx, Option.bind_eq_bind, Option.bind_some]
  cases hvar : arena[v] with
  | pointer p =>
    rw [hvar] at hwithin
    simp only [Variable.rename, PointerVariable.rename]
    cases hf : p.function with
    | none => rfl
    | some f => exact h.function?_eq (hwithin.2 f hf)
  | function f => exact h.function?_eq hv

end Embeds

/-- The atoms below a variable are the images of those below it here. -/
theorem Embeds.atomsWithin (h : arena.Embeds ρ arena') {k : Nat} {l : List Atom}
    (hl : arena.atomsWithin k v = some l) :
    arena'.atomsWithin k (ρ.var v) = some (l.map ρ.atom) := by
  induction k generalizing v l with
  | zero => cases hl
  | succ k ih =>
    obtain ⟨x, hx, hl⟩ := Option.bind_eq_some_iff.1 hl
    refine Option.bind_eq_some_iff.2 ⟨_, h v x hx, ?_⟩
    cases x with
    | pointer p =>
      cases hf : p.function with
      | none =>
        simp only [hf] at hl
        obtain rfl := Option.some.inj hl
        simp [Variable.rename, PointerVariable.rename, hf]
      | some f =>
        simp only [hf] at hl
        obtain ⟨below, hbelow, hl⟩ := Option.bind_eq_some_iff.1 hl
        obtain rfl := Option.some.inj hl
        simp [Variable.rename, PointerVariable.rename, hf, ih hbelow]
    | function f =>
      obtain ⟨owned, howned, hl⟩ := Option.bind_eq_some_iff.1 hl
      obtain rfl := Option.some.inj hl
      have hmembers : (f.rename ρ).slots.flatMap VarSet.members =
          (f.slots.flatMap VarSet.members).map ρ.var := by
        simp [List.map_flatMap, List.flatMap_map, VarSet.rename]
      have hmoved := mapM_map_eq_some howned fun w _ below hw => ih hw
      rw [← hmembers] at hmoved
      exact Option.bind_eq_some_iff.2 ⟨_, hmoved, by simp [List.map_flatten]⟩

/-- A variable owns elsewhere what its atoms are there. -/
theorem Embeds.atoms_eq (h : arena.Embeds ρ arena') {atoms atoms' : List Atom}
    (hatoms : arena.atoms? v = some atoms) (hatoms' : arena'.atoms? (ρ.var v) = some atoms') :
    atoms' = atoms.map ρ.atom := by
  have hmoved := atomsWithin_mono (h.atomsWithin hatoms) (Nat.le_max_left (v + 1) (ρ.var v + 1))
  have hthere := atomsWithin_mono hatoms' (Nat.le_max_right (v + 1) (ρ.var v + 1))
  exact Option.some.inj (hthere.symm.trans hmoved)

/-! ### Equations -/

section

variable {same : Atom → Atom → Prop} {eqs : VarId → VarId → Option (List (Atom × Atom))}
  {l : List (Atom × Atom)} {a b k m' : Nat} {p q : PointerVariable} {f g : FunctionVariable}

/-- Variables that coincide elsewhere have equations that hold there. -/
def Yields (ρ : Renaming) (arena' : Arena) (same : Atom → Atom → Prop)
    (eqs : VarId → VarId → Option (List (Atom × Atom))) : Prop :=
  ∀ {a b : VarId} {l : List (Atom × Atom)}, eqs a b = some l →
    arena'.Coincide same (ρ.var a) (ρ.var b) → ∀ e ∈ l, same (ρ.atom e.1) (ρ.atom e.2)

/-- Equations of two sets hold elsewhere if they hold of each pair. -/
theorem Yields.cross (h : Yields ρ arena' same eqs) {s t : VarSet}
    (hl : crossWith eqs s t = some l)
    (hc : ∀ x ∈ s, ∀ y ∈ t, arena'.Coincide same (ρ.var x) (ρ.var y)) :
    ∀ e ∈ l, same (ρ.atom e.1) (ρ.atom e.2) := by
  obtain ⟨owed, howed, hl⟩ := Option.bind_eq_some_iff.1 hl
  obtain rfl := Option.some.inj hl
  intro e he
  obtain ⟨l, hl, he⟩ := List.mem_flatten.1 he
  obtain ⟨pair, hpair, hpl⟩ := mem_of_mapM howed hl
  obtain ⟨x, hx, hpair⟩ := List.mem_flatMap.1 hpair
  obtain ⟨y, hy, rfl⟩ := List.mem_map.1 hpair
  exact h hpl (hc x hx y hy) e he

variable (h : arena.Embeds ρ arena')

include h

theorem Embeds.pointer? (hp : arena.pointer? a = some p) :
    arena'.pointer? (ρ.var a) = some (p.rename ρ) := by
  rw [h.pointer?_eq (lt_of_pointer? hp), hp]
  rfl

theorem Embeds.function? (hf : arena.function? a = some f) :
    arena'.function? (ρ.var a) = some (f.rename ρ) := by
  rw [h.function?_eq (lt_of_function? hf), hf]
  rfl

/-- Two pointers: their levels coincide elsewhere, and the functions below them by the induction. -/
theorem Yields.pointers (hy : Yields ρ arena' same (arena.equationsWithin k))
    (hrefl : ∀ x, same x x) (hsymm : ∀ {x y}, same x y → same y x) (hab : a ≠ b)
    (hp : arena.pointer? a = some p) (hq : arena.pointer? b = some q)
    (hl : arena.equationsWithin (k + 1) a b = some l)
    (hc : arena'.Coincide same (ρ.var a) (ρ.var b)) :
    ∀ e ∈ l, same (ρ.atom e.1) (ρ.atom e.2) := by
  have hp' := h.pointer? hp
  have hq' := h.pointer? hq
  have hlevels : ∀ e ∈ p.atoms.zip q.atoms, same (ρ.atom e.1) (ρ.atom e.2) := by
    intro e he
    obtain ⟨i, he⟩ := List.mem_iff_getElem?.1 he
    obtain ⟨hx, hy⟩ := List.getElem?_zip_eq_some.1 he
    apply hc.level hrefl hsymm hp' hq' (i := i) <;>
      simp [PointerVariable.rename, hx, hy]
  by_cases hnone : p.function = none ∨ q.function = none
  · rw [equationsWithin_pointers hab hp hq hnone] at hl
    exact Option.some.inj hl ▸ hlevels
  · obtain ⟨hpf, hqf⟩ := not_or.1 hnone
    obtain ⟨f, hf⟩ := Option.ne_none_iff_exists'.1 hpf
    obtain ⟨g, hg⟩ := Option.ne_none_iff_exists'.1 hqf
    rw [equationsWithin_attached hab hp hq hf hg] at hl
    obtain ⟨below, hbelow, rfl⟩ := Option.map_eq_some_iff.1 hl
    have hattached := hc.attached hp' hq' (f := ρ.var f) (g := ρ.var g)
      (by simp [PointerVariable.rename, hf]) (by simp [PointerVariable.rename, hg])
    intro e he
    rcases List.mem_append.1 he with he | he
    · exact hlevels e he
    · exact hy hbelow hattached e he

/-- A pointer and a function. -/
theorem Yields.mixed (hy : Yields ρ arena' same (arena.equationsWithin k)) (hab : a ≠ b)
    (hp : arena.pointer? a = some p) (hg : arena.function? b = some g)
    (hl : arena.equationsWithin (k + 1) a b = some l)
    (hc : arena'.Coincide same (ρ.var a) (ρ.var b)) :
    ∀ e ∈ l, same (ρ.atom e.1) (ρ.atom e.2) := by
  have hp' := h.pointer? hp
  have hg' := h.function? hg
  cases hf : p.function with
  | none =>
    rw [equationsWithin_returned hab hp hg hf] at hl
    refine hy.cross hl fun x hx y hy => ?_
    rw [(VarSet.mem_singleton a x).1 hx]
    exact hc.ofReturned.1 _ _ hp' (by simp [PointerVariable.rename, hf]) hg' _
      (VarSet.mem_rename.2 ⟨y, hy, rfl⟩)
  | some f =>
    rw [equationsWithin_pointed hab hp hg hf] at hl
    exact hy hl (hc.ofPointed.1 _ _ hp' (by simp [PointerVariable.rename, hf])
      (isFunction_iff.2 ⟨_, hg'⟩))

/-- Two functions: their returns and, if they have as many, their parameters. -/
theorem Yields.functions (hy : Yields ρ arena' same (arena.equationsWithin k))
    (hwf : arena'.WellFormed m') (hab : a ≠ b) (hf : arena.function? a = some f)
    (hg : arena.function? b = some g) (hl : arena.equationsWithin (k + 1) a b = some l)
    (hc : arena'.Coincide same (ρ.var a) (ρ.var b)) :
    ∀ e ∈ l, same (ρ.atom e.1) (ρ.atom e.2) := by
  have hf' := h.function? hf
  have hg' := h.function? hg
  have hreturns : ∀ x ∈ f.returns, ∀ y ∈ g.returns,
      arena'.Coincide same (ρ.var x) (ρ.var y) := fun x hx y hy =>
    hc.slot hwf hf' hg' (i := 0) (.inl rfl) rfl rfl _ (VarSet.mem_rename.2 ⟨x, hx, rfl⟩) _
      (VarSet.mem_rename.2 ⟨y, hy, rfl⟩)
  by_cases hlen : f.params.length = g.params.length
  · rw [equationsWithin_functions hab hf hg hlen] at hl
    obtain ⟨returns, hr, hl⟩ := Option.bind_eq_some_iff.1 hl
    obtain ⟨params, hparams, hl⟩ := Option.bind_eq_some_iff.1 hl
    obtain rfl := Option.some.inj hl
    intro e he
    rcases List.mem_append.1 he with he | he
    · exact hy.cross hr hreturns e he
    · obtain ⟨l, hl, he⟩ := List.mem_flatten.1 he
      obtain ⟨slots, hslots, hcross⟩ := mem_of_mapM hparams hl
      obtain ⟨i, hi⟩ := List.mem_iff_getElem?.1 hslots
      obtain ⟨hfst, hsnd⟩ := List.getElem?_zip_eq_some.1 hi
      refine hy.cross hcross (fun x hx y hy => ?_) e he
      exact hc.slot hwf hf' hg' (i := i + 1)
        (.inr (by simp [FunctionVariable.rename, hlen]))
        (by simp [FunctionVariable.slots, FunctionVariable.rename, hfst])
        (by simp [FunctionVariable.slots, FunctionVariable.rename, hsnd]) _
        (VarSet.mem_rename.2 ⟨x, hx, rfl⟩) _ (VarSet.mem_rename.2 ⟨y, hy, rfl⟩)
  · rw [equationsWithin_uneven hab hf hg hlen] at hl
    exact hy.cross hl hreturns

/-- Where variables stand that coincide, their equations hold. -/
theorem Embeds.yields (hwf : arena'.WellFormed m') (hrefl : ∀ x, same x x)
    (hsymm : ∀ {x y}, same x y → same y x) (k : Nat) :
    Yields ρ arena' same (arena.equationsWithin k) := by
  induction k with
  | zero =>
    intro a b l hl
    cases hl
  | succ k ih =>
    intro a b l hl hc
    by_cases hab : a = b
    · rw [equationsWithin, if_pos hab] at hl
      obtain rfl := Option.some.inj hl
      simp
    obtain ⟨ha, hb⟩ := sizes_of_equationsWithin hab hl
    rcases pointer_or_function ha with ⟨p, -, hp⟩ | ⟨f, -, hf⟩
    · rcases pointer_or_function hb with ⟨q, -, hq⟩ | ⟨g, -, hg⟩
      · exact ih.pointers h hrefl hsymm hab hp hq hl hc
      · exact ih.mixed h hab hp hg hl hc
    · rcases pointer_or_function hb with ⟨q, -, hq⟩ | ⟨g, -, hg⟩
      · rw [equationsWithin_comm hq hf] at hl
        exact ih.mixed h (fun hba => hab hba.symm) hq hf hl hc.symm
      · exact ih.functions h hwf hab hf hg hl hc

end

end Arena

/-! ## Renamed answers -/

/-- The second set has just what the members of the first are elsewhere. -/
def VarSet.Images (ρ : Renaming) (set set' : VarSet) : Prop :=
  ∀ w, w ∈ set' ↔ ∃ v ∈ set, ρ.var v = w

namespace VarSet.Images

variable {x x' y y' : VarSet}

theorem empty : VarSet.empty.Images ρ .empty := by simp [VarSet.Images]

theorem singleton (v : VarId) : (VarSet.singleton v).Images ρ (.singleton (ρ.var v)) := by
  simp [VarSet.Images, eq_comm]

theorem union (h : x.Images ρ x') (h' : y.Images ρ y') : (x.union y).Images ρ (x'.union y') := by
  intro w
  rw [mem_union, h w, h' w]
  simp only [mem_union, or_and_right, exists_or]

theorem rename (set : VarSet) : set.Images ρ (set.rename ρ) := fun _ => mem_rename

theorem congr (h : x.Images ρ x') (hρ : ρ.Agrees ρ' m n) (hx : ∀ v ∈ x, v < n) :
    x.Images ρ' x' := by
  intro w
  rw [h w]
  exact exists_congr fun v => and_congr_right fun hv => by rw [hρ.var v (hx v hv)]

end VarSet.Images

structure OpenUnit.Embeds (ρ : Renaming) (o o' : OpenUnit) : Prop where
  id : o'.id = o.id
  file : o'.file = o.file
  literals : ∀ e v, o.literals.find? e = some v → o'.literals.find? e = some (ρ.var v)
  unknownCallees : ∀ e v, o.unknownCallees.find? e = some v →
    o'.unknownCallees.find? e = some (ρ.var v)

theorem OpenUnit.Embeds.remembers {o o' o'' : OpenUnit} (h : o.Embeds ρ o')
    (hr : o'.Remembers o'') : o.Embeds ρ o'' where
  id := hr.id.trans h.id
  file := hr.file.trans h.file
  literals e v hv := hr.literals e _ (h.literals e v hv)
  unknownCallees e v hv := hr.unknownCallees e _ (h.unknownCallees e v hv)

namespace OpenUnit.Embeds

variable {o o' : OpenUnit} (h : o.Embeds ρ o') {e : ExprId} {v : VarId}

include h

/-- The unit may learn of the variable of a literal that is known there. -/
theorem addLiteral (hv : o'.literals.find? e = some (ρ.var v)) :
    OpenUnit.Embeds ρ { o with literals := o.literals.insert e v } o' := by
  refine { h with literals := fun e' w hw => ?_ }
  simp only [OrderedMap.find?_insert] at hw
  by_cases he : e' = e
  · rw [if_pos he] at hw
    obtain rfl := Option.some.inj hw
    exact he ▸ hv
  · rw [if_neg he] at hw
    exact h.literals e' w hw

/-- The unit may learn of the signature of a call that is known there. -/
theorem addUnknownCallee (hv : o'.unknownCallees.find? e = some (ρ.var v)) :
    OpenUnit.Embeds ρ { o with unknownCallees := o.unknownCallees.insert e v } o' := by
  refine { h with unknownCallees := fun e' w hw => ?_ }
  simp only [OrderedMap.find?_insert] at hw
  by_cases he : e' = e
  · rw [if_pos he] at hw
    obtain rfl := Option.some.inj hw
    exact he ▸ hv
  · rw [if_neg he] at hw
    exact h.unknownCallees e' w hw

end OpenUnit.Embeds

namespace Session

variable {s s' t t' : Session} {set set' : VarSet}

structure Later (ρ ρ' : Renaming) (s s' : Session) : Prop where
  agrees : ρ.Agrees ρ' s.solver.cells.size s.arena.size
  atoms : s.solver.cells.size ≤ s'.solver.cells.size
  arena : s.arena.Grows s'.arena
  implicits : ∀ key set, s.implicits.find? key = some set → s'.implicits.find? key = some set

theorem Later.refl (ρ : Renaming) (s : Session) : Later ρ ρ s s :=
  ⟨.refl _ _ _, Nat.le_refl _, .refl _, fun _ _ => id⟩

theorem Later.trans {ρ'' : Renaming} {s'' : Session} (h : Later ρ ρ' s s')
    (h' : Later ρ' ρ'' s' s'') : Later ρ ρ'' s s'' where
  agrees := h.agrees.trans h'.agrees h.atoms h.arena.size_le
  atoms := Nat.le_trans h.atoms h'.atoms
  arena := h.arena.trans h'.arena
  implicits key set hset := h'.implicits key set (h.implicits key set hset)

theorem Follows.later (h : s.Follows s') (ρ : Renaming) : Later ρ ρ s s' :=
  ⟨.refl _ _ _, h.solver.size_le, h.arena, h.implicits⟩

theorem WellFormed.variable_congr (hs : s.WellFormed) {v : VarId} {x : Variable}
    (hρ : ρ.Agrees ρ' s.solver.cells.size s.arena.size) (hx : s.arena[v]? = some x) :
    x.rename ρ' = x.rename ρ :=
  Variable.rename_congr hρ (hs.arena.within hx)

theorem WellFormed.signature_congr (hs : s.WellFormed) {f : FunctionVariable}
    (hρ : ρ.Agrees ρ' s.solver.cells.size s.arena.size) (hf : f ∈ s.arena.signatures set) :
    f.rename ρ' = f.rename ρ := by
  obtain ⟨v, -, hv⟩ := List.mem_filterMap.1 hf
  obtain ⟨w, hw⟩ := Arena.function?_of_reachableFunction? hv
  exact Variable.function.inj (hs.variable_congr hρ (Arena.getElem?_of_function? hw))

theorem WellFormed.signatures_eq (hs : s.WellFormed) (h : Holds set s)
    (hst : s.arena.Grows t.arena) : t.arena.signatures set = s.arena.signatures set :=
  List.filterMap_congr fun v hv => hs.arena.reachableFunction?_eq hst (h v hv)

theorem Holds.grows (h : Holds set s) (hst : s.arena.Grows t.arena) : Holds set t :=
  fun v hv => Nat.lt_of_lt_of_le (h v hv) hst.size_le

/-- What is denoted elsewhere is the same, and so is the last signature among it. -/
structure Tracks (ρ : Renaming) (s t : Session) (set set' : VarSet) : Prop where
  holds : Holds set s
  images : set.Images ρ set'
  last : (t.arena.signatures set').getLast? =
    (s.arena.signatures set).getLast?.map (FunctionVariable.rename ρ)

theorem Tracks.empty (ρ : Renaming) (s t : Session) : Tracks ρ s t .empty .empty :=
  ⟨.empty s, .empty, rfl⟩

/-- A variable is tracked where it stands. -/
theorem Tracks.singleton {v : VarId} (hs : s.WellFormed) (h : s.arena.Embeds ρ t.arena)
    (hv : v < s.arena.size) : Tracks ρ s t (.singleton v) (.singleton (ρ.var v)) := by
  refine ⟨.singleton hv, .singleton v, ?_⟩
  have hfunction := h.reachableFunction?_eq hs.arena hv
  simp only [Arena.signatures, VarSet.singleton, List.filterMap_cons, List.filterMap_nil, hfunction]
  cases s.arena.reachableFunction? v <;> rfl

/-- Only the variables count. -/
theorem Tracks.of_arena (h : Tracks ρ s t set set') (hs : s'.arena = s.arena)
    (ht : t'.arena = t.arena) : Tracks ρ s' t' set set' where
  holds := by
    rw [Holds, hs]
    exact h.holds
  images := h.images
  last := by
    rw [hs, ht]
    exact h.last

theorem Tracks.later (h : Tracks ρ s t set set') (hs : s.WellFormed) (hl : Later ρ ρ' s s') :
    Tracks ρ' s' t set set' where
  holds := h.holds.grows hl.arena
  images := h.images.congr hl.agrees h.holds
  last := by
    rw [h.last, hs.signatures_eq h.holds hl.arena]
    exact Option.map_congr fun f hf =>
      (hs.signature_congr hl.agrees (List.mem_of_getLast? hf)).symm

/-- One session stands inside of another: what it holds and knows is held and known there, under
the names that the renaming gives. -/
structure Embeds (ρ : Renaming) (s t : Session) : Prop where
  wellFormed : s.WellFormed
  options : t.options = s.options
  arena : s.arena.Embeds ρ t.arena
  recorded : ∀ c ∈ s.solver.constraints, t.solver.Says (c.rename ρ)
  index : ∀ anchor, t.index.contains anchor = s.index.contains anchor
  stored : ∀ anchor, Tracks ρ s t (s.storedAt anchor) (t.storedAt anchor)
  implicits : ∀ key set, s.implicits.find? key = some set →
    ∃ v, set = .singleton v ∧ t.implicits.find? key = some (.singleton (ρ.var v))
  declared : ∀ key set, s.pairing.declared? key = some set →
    ∃ set', t.pairing.declared? key = some set' ∧ ∀ v ∈ set, ρ.var v ∈ set'
  pointees : ∀ v m, s.pointees.find? v = some m →
    v < s.arena.size ∧ t.pointees.find? (ρ.var v) = some (m.map ρ.var)
  opened : ∀ o', t.opened = some o' → ∃ o, s.opened = some o ∧ o.Embeds ρ o'

namespace Embeds

/-- Only the names of what is there count. -/
theorem congr (h : s.Embeds ρ t) (hρ : ρ.Agrees ρ' s.solver.cells.size s.arena.size) :
    s.Embeds ρ' t where
  wellFormed := h.wellFormed
  options := h.options
  arena v x hx := by
    rw [hρ.var v (Array.getElem?_eq_some_iff.1 hx).1, h.wellFormed.variable_congr hρ hx]
    exact h.arena v x hx
  recorded c hc := by
    rw [Constraint.rename_congr hρ (h.wellFormed.solver.known c hc)]
    exact h.recorded c hc
  index := h.index
  stored anchor := (h.stored anchor).later h.wellFormed ⟨hρ, Nat.le_refl _, .refl _, fun _ _ => id⟩
  implicits key set hset := by
    obtain ⟨v, rfl, hv⟩ := h.implicits key set hset
    have hfun := h.wellFormed.implicits _ (OrderedMap.mem_of_find? hset) v
      ((VarSet.mem_singleton v v).2 rfl)
    exact ⟨v, rfl, by rw [hρ.var v (Arena.lt_of_isFunction hfun)]; exact hv⟩
  declared key set hset := by
    obtain ⟨set', hset', hall⟩ := h.declared key set hset
    refine ⟨set', hset', fun v hv => ?_⟩
    have hfun := h.wellFormed.declarations _ (OrderedMap.mem_of_find? hset) v hv
    rw [hρ.var v (Arena.lt_of_isFunction hfun)]
    exact hall v hv
  pointees v m hm := by
    obtain ⟨hv, hm'⟩ := h.pointees v m hm
    have hmade : m.map ρ'.var = m.map ρ.var := Option.map_congr fun d hd =>
      hρ.var d (Arena.lt_of_isPointer (h.wellFormed.pointees _ (OrderedMap.mem_of_find? hm) d hd))
    exact ⟨hv, by rw [hρ.var v hv, hmade]; exact hm'⟩
  opened o' ho' := by
    obtain ⟨o, ho, he⟩ := h.opened o' ho'
    refine ⟨o, ho, he.id, he.file, fun e v hv => ?_, fun e v hv => ?_⟩
    · have hptr := h.wellFormed.literals o ho _ (OrderedMap.mem_of_find? hv)
      rw [hρ.var v (Arena.lt_of_isPointer hptr)]
      exact he.literals e v hv
    · have hfun := h.wellFormed.unknownCallees o ho _ (OrderedMap.mem_of_find? hv)
      rw [hρ.var v (Arena.lt_of_isFunction hfun)]
      exact he.unknownCallees e v hv

/-- What was created and recorded stands there as well. -/
theorem creates (h : s.Embeds ρ t) (hs : s.Creates s') (harena : s'.arena.Embeds ρ t.arena)
    (hrecorded : ∀ c ∈ s'.solver.constraints, t.solver.Says (c.rename ρ)) : s'.Embeds ρ t where
  wellFormed := hs.wellFormed h.wellFormed
  options := h.options.trans hs.options.symm
  arena := harena
  recorded := hrecorded
  index := by rw [hs.only]; exact h.index
  stored anchor := by
    have hstored : s'.storedAt anchor = s.storedAt anchor := by rw [hs.only]; rfl
    rw [hstored]
    exact (h.stored anchor).later h.wellFormed (hs.visits.toFollows.later ρ)
  implicits := by rw [hs.only]; exact h.implicits
  declared := by rw [hs.only]; exact h.declared
  pointees v m hm := by
    rw [hs.only] at hm
    obtain ⟨hv, hm'⟩ := h.pointees v m hm
    exact ⟨Nat.lt_of_lt_of_le hv hs.arena.size_le, hm'⟩
  opened := by rw [hs.only]; exact h.opened

/-- A new variable stands wherever one stands that looks the same. -/
theorem push (h : s.Embeds ρ t) {x : Variable} {w : VarId}
    (hx : s.arena.Admits s.solver.cells.size x) (hw : t.arena[w]? = some (x.rename ρ)) :
    Embeds (ρ.nameVar s.arena.size w) { s with arena := s.arena.push x } t := by
  have hρ := ρ.agrees_nameVar s.solver.cells.size s.arena.size w
  have h' := h.congr hρ
  have hcreates : s.Creates { s with arena := s.arena.push x } :=
    ((allocate_meets hx).of_ends (a := s.arena.size) rfl).1
  refine h'.creates hcreates (fun v y hy => ?_) h'.recorded
  rw [Array.getElem?_push] at hy
  split at hy
  · next hv =>
    obtain rfl := Option.some.inj hy
    rw [hv, Renaming.nameVar_self, Variable.rename_congr hρ hx.within]
    exact hw
  · exact h'.arena v y hy

/-- A new atom stands anywhere. -/
theorem fresh (h : s.Embeds ρ t) (a : Atom) :
    Embeds (ρ.nameAtom s.solver.cells.size a) { s with solver := s.solver.fresh.2 } t := by
  have h' := h.congr (ρ.agrees_nameAtom s.solver.cells.size s.arena.size a)
  exact h'.creates ((freshAtom_meets s).of_ends rfl).1 h'.arena h'.recorded

/-- A constraint can be recorded that is recorded there. -/
theorem record (h : s.Embeds ρ t) {c : Constraint} (hc : c.Known s.solver.cells.size)
    (hsaid : t.solver.Says (c.rename ρ)) :
    Embeds ρ { s with solver := (s.solver.add c).2 } t := by
  have hrecords : s.Records { s with solver := (s.solver.add c).2 } :=
    ⟨ConstraintSystem.grows_add hc, by simp, rfl⟩
  refine h.creates hrecords.creates h.arena fun d hd => ?_
  rcases (ConstraintSystem.mem_add_constraints s.solver c d).1 hd with hd | ⟨rfl, -⟩
  · exact h.recorded d hd
  · rw [← ConstraintSystem.says_normalized, Constraint.normalized_rename,
      ConstraintSystem.says_normalized]
    exact hsaid

/-- A function can be declared that is declared there under the same key. -/
theorem declare (h : s.Embeds ρ t) {key : FunctionKey} {v : VarId} (hv : s.arena.isFunction v)
    (hdeclared : ∃ set, t.pairing.declared? key = some set ∧ ρ.var v ∈ set) :
    Embeds ρ { s with pairing := s.pairing.declare key v } t := by
  have hkept : s.Visits { s with pairing := s.pairing.declare key v } := (declare_meets hv).1
  refine { h with
    wellFormed := hkept.wellFormed h.wellFormed
    stored := fun anchor => (h.stored anchor).of_arena rfl rfl, declared := ?_ }
  intro key' set hset
  simp only [Pairing.declare, Pairing.declared?, OrderedMap.find?_insert] at hset
  by_cases hkey : key' = key
  · rw [if_pos hkey] at hset
    obtain rfl := Option.some.inj hset
    obtain ⟨made, hmade, hmem⟩ := hdeclared
    refine ⟨made, hkey ▸ hmade, fun w hw => ?_⟩
    rcases (VarSet.mem_insert _ _ _).1 hw with rfl | hw
    · exact hmem
    · cases hold : s.pairing.declarations.find? key with
      | none =>
        rw [hold] at hw
        exact absurd hw (VarSet.not_mem_empty w)
      | some old =>
        rw [hold] at hw
        obtain ⟨made', hmade', hall⟩ := h.declared key old hold
        obtain rfl := Option.some.inj (hmade.symm.trans hmade')
        exact hall w hw
  · rw [if_neg hkey] at hset
    exact h.declared key' set hset

/-- A signature can be remembered that is remembered there under the same key. -/
theorem addImplicit (h : s.Embeds ρ t) {key : FunctionKey} {v : VarId} (hv : s.arena.isFunction v)
    (hfree : s.implicits.find? key = none)
    (hmade : t.implicits.find? key = some (.singleton (ρ.var v))) :
    Embeds ρ { s with implicits := s.implicits.insert key (.singleton v) } t := by
  have hkept : s.Visits { s with implicits := s.implicits.insert key (.singleton v) } :=
    (addImplicit_meets hv hfree).1
  refine { h with
    wellFormed := hkept.wellFormed h.wellFormed
    stored := fun anchor => (h.stored anchor).of_arena rfl rfl, implicits := ?_ }
  intro key' set hset
  simp only [OrderedMap.find?_insert] at hset
  by_cases hkey : key' = key
  · rw [if_pos hkey] at hset
    obtain rfl := Option.some.inj hset
    exact ⟨v, rfl, hkey ▸ hmade⟩
  · rw [if_neg hkey] at hset
    exact h.implicits key' set hset

/-- A variable one dereference down can be remembered that is remembered there. -/
theorem lookBelow (h : s.Embeds ρ t) {v : VarId} {below : Option VarId} (hv : v < s.arena.size)
    (hbelow : ∀ d, below = some d → s.arena.isPointer d) (hfree : s.pointees.find? v = none)
    (hmade : t.pointees.find? (ρ.var v) = some (below.map ρ.var)) :
    Embeds ρ { s with pointees := s.pointees.insert v below } t := by
  have hkept : s.Visits { s with pointees := s.pointees.insert v below } :=
    (addPointee_meets hbelow hfree).1
  refine { h with
    wellFormed := hkept.wellFormed h.wellFormed
    stored := fun anchor => (h.stored anchor).of_arena rfl rfl, pointees := ?_ }
  intro v' m hm
  simp only [OrderedMap.find?_insert] at hm
  by_cases hv' : v' = v
  · rw [if_pos hv'] at hm
    obtain rfl := Option.some.inj hm
    exact ⟨hv' ▸ hv, hv' ▸ hmade⟩
  · rw [if_neg hv'] at hm
    exact h.pointees v' m hm

/-- The open unit may learn of what the unit open there knows. -/
theorem reopen (h : s.Embeds ρ t) {o o' : OpenUnit}
    (hs : s.WellFormed → Session.WellFormed { s with opened := some o }) (ho' : t.opened = some o')
    (ho : o.Embeds ρ o') : Embeds ρ { s with opened := some o } t :=
  { h with
    wellFormed := hs h.wellFormed
    stored := fun anchor => (h.stored anchor).of_arena rfl rfl
    opened := fun _ ho₁ => ⟨o, rfl, Option.some.inj (ho'.symm.trans ho₁) ▸ ho⟩ }

/-- A unit that is open there is open here as well. -/
theorem isOpen (h : s.Embeds ρ t) {u : TranslationUnit} {o' : OpenUnit} (ho' : IsOpen u o' t) :
    ∃ o, IsOpen u o s ∧ OpenUnit.Embeds ρ o o' := by
  obtain ⟨o, ho, he⟩ := h.opened o' ho'.1
  exact ⟨o, ⟨ho, he.id.symm.trans ho'.2.1, he.file.symm.trans ho'.2.2⟩, he⟩

/-- What stands in a session stands in all that it becomes. -/
theorem follows (h : s.Embeds ρ t) (ht : t.WellFormed) (htt' : t.Follows t')
    (hdeclared : ∀ key set, t.pairing.declared? key = some set →
      ∃ set', t'.pairing.declared? key = some set' ∧ ∀ v ∈ set, v ∈ set')
    (hopened : ∀ o', t'.opened = some o' → ∃ o, t.opened = some o ∧ o.Remembers o') :
    s.Embeds ρ t' where
  wellFormed := h.wellFormed
  options := htt'.options.trans h.options
  arena v x hx := htt'.arena _ _ (h.arena v x hx)
  recorded c hc := (h.recorded c hc).grows htt'.solver
  index := by rw [htt'.index]; exact h.index
  stored anchor := by
    obtain ⟨hholds, himages, hlast⟩ := h.stored anchor
    have hstored : t'.storedAt anchor = t.storedAt anchor := by rw [storedAt, htt'.index]; rfl
    rw [hstored]
    refine ⟨hholds, himages, ?_⟩
    rw [ht.signatures_eq (fun v hv => ht.stored_lt hv) htt'.arena]
    exact hlast
  implicits key set hset := by
    obtain ⟨v, hv, hv'⟩ := h.implicits key set hset
    exact ⟨v, hv, htt'.implicits key _ hv'⟩
  declared key set hset := by
    obtain ⟨set', hset', hall⟩ := h.declared key set hset
    obtain ⟨set'', hset'', hall'⟩ := hdeclared key set' hset'
    exact ⟨set'', hset'', fun v hv => hall' _ (hall v hv)⟩
  pointees v m hm := by
    obtain ⟨hv, hm'⟩ := h.pointees v m hm
    exact ⟨hv, htt'.pointees _ _ hm'⟩
  opened o'' ho'' := by
    obtain ⟨o', ho', hr⟩ := hopened o'' ho''
    obtain ⟨o, ho, he⟩ := h.opened o' ho'
    exact ⟨o, ho, he.remembers hr⟩

end Embeds

end Session

end CheckedPointers
