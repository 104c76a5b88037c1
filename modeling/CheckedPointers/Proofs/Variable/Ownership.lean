import CheckedPointers.Proofs.Variable.Arena
import CheckedPointers.Variable.Ownership
import CheckedPointers.Variable.Report

/-!
Walks through a well-formed arena. Variables name older ones, so a walk that may take as many steps
as there are older variables comes to its end, and every atom that it meets is there.
-/
namespace CheckedPointers

/-- What is found for every member of a list is gathered. -/
theorem exists_mapM {α β : Type} {g : α → Option β} {P : β → Prop} {l : List α}
    (h : ∀ a ∈ l, ∃ b, g a = some b ∧ P b) : ∃ bs, l.mapM g = some bs ∧ ∀ b ∈ bs, P b := by
  induction l with
  | nil => exact ⟨[], rfl, fun _ hb => nomatch hb⟩
  | cons a rest ih =>
    obtain ⟨b, hb, hp⟩ := h a List.mem_cons_self
    obtain ⟨bs, hbs, hps⟩ := ih fun c hc => h c (List.mem_cons_of_mem a hc)
    refine ⟨b :: bs, ?_, List.forall_mem_cons.2 ⟨hp, hps⟩⟩
    rw [List.mapM_cons, hb, hbs]
    rfl

theorem exists_mapM_any {α β : Type} {g : α → Option β} {l : List α}
    (h : ∀ a ∈ l, ∃ b, g a = some b) : ∃ bs, l.mapM g = some bs := by
  obtain ⟨bs, hbs, -⟩ := exists_mapM (P := fun _ => True) fun a ha => by
    obtain ⟨b, hb⟩ := h a ha
    exact ⟨b, hb, trivial⟩
  exact ⟨bs, hbs⟩

namespace Arena

variable {arena : Arena} {n k a b : Nat} {v w : VarId} {f : FunctionVariable} {slot : VarSet}

/-- What stands in a slot is older than the function that has the slot. -/
theorem WellFormed.slot_lt (h : arena.WellFormed n) (hf : arena.function? v = some f)
    (hslot : slot ∈ f.slots) (hw : w ∈ slot) : w < v ∧ w < arena.size := by
  have hbelow := h.slots hf hslot
  have hptr := lt_of_isPointer (hbelow.isPointer hw)
  rcases hbelow with rfl | ⟨p, rfl, hlt, -⟩
  · exact absurd hw (VarSet.not_mem_empty w)
  · exact ⟨(VarSet.mem_singleton p w).1 hw ▸ hlt, hptr⟩

/-- A variable is a pointer, with what it points to, or a function. -/
theorem pointer_or_function (hv : v < arena.size) :
    (∃ p, arena[v]? = some (.pointer p) ∧ arena.pointer? v = some p) ∨
      ∃ f, arena[v]? = some (.function f) ∧ arena.function? v = some f := by
  have hget : arena[v]? = some arena[v] := Array.getElem?_eq_getElem hv
  cases hx : arena[v] with
  | pointer p =>
    rw [hx] at hget
    exact .inl ⟨p, hget, pointer?_of_getElem? hget⟩
  | function f =>
    rw [hx] at hget
    exact .inr ⟨f, hget, function?_of_getElem? hget⟩

/-! ## Atoms -/

/-- A walk down ends, since variables name older ones, and at atoms that are there. -/
theorem WellFormed.exists_atomsWithin (h : arena.WellFormed n) (hk : v < k)
    (hv : v < arena.size) :
    ∃ atoms, arena.atomsWithin k v = some atoms ∧ ∀ a ∈ atoms, a < n := by
  induction k generalizing v with
  | zero => exact absurd hk (Nat.not_lt_zero v)
  | succ k ih =>
    rcases pointer_or_function hv with ⟨p, hget, hp⟩ | ⟨f, hget, hf⟩
    · have hatoms : ∀ a ∈ p.atoms, a < n := fun a ha => h.atom_lt hp ha
      cases hfun : p.function with
      | none => exact ⟨p.atoms, by simp [atomsWithin, hget, hfun], hatoms⟩
      | some g =>
        obtain ⟨hlt, hg⟩ := h.attached hp hfun
        obtain ⟨below, hbelow, hall⟩ := ih (Nat.lt_of_lt_of_le hlt (Nat.le_of_lt_succ hk))
          (lt_of_isFunction hg)
        refine ⟨p.atoms ++ below, by simp [atomsWithin, hget, hfun, hbelow], fun a ha => ?_⟩
        exact (List.mem_append.1 ha).elim (hatoms a) (hall a)
    · have hslots : ∀ w ∈ f.slots.flatMap VarSet.members,
          ∃ atoms, arena.atomsWithin k w = some atoms ∧ ∀ a ∈ atoms, a < n := by
        intro w hw
        obtain ⟨slot, hslot, hmem⟩ := List.mem_flatMap.1 hw
        obtain ⟨hlt, hsize⟩ := h.slot_lt hf hslot hmem
        exact ih (Nat.lt_of_lt_of_le hlt (Nat.le_of_lt_succ hk)) hsize
      obtain ⟨owned, howned, hall⟩ := exists_mapM hslots
      refine ⟨owned.flatten, by simp [atomsWithin, hget, howned], fun a ha => ?_⟩
      obtain ⟨atoms, hatoms, hmem⟩ := List.mem_flatten.1 ha
      exact hall atoms hatoms a hmem

/-- Every variable that is there owns a list of atoms that are there. -/
theorem WellFormed.exists_atoms (h : arena.WellFormed n) (hv : v < arena.size) :
    ∃ atoms, arena.atoms? v = some atoms ∧ ∀ a ∈ atoms, a < n :=
  h.exists_atomsWithin (Nat.lt_succ_self v) hv

/-! ## Equations -/

def KnownPair (n : Nat) (e : Atom × Atom) : Prop := e.1 < n ∧ e.2 < n

theorem exists_crossWith {eqs : VarId → VarId → Option (List (Atom × Atom))} {s t : VarSet}
    (h : ∀ x ∈ s, ∀ y ∈ t, ∃ l, eqs x y = some l ∧ ∀ e ∈ l, KnownPair n e) :
    ∃ l, crossWith eqs s t = some l ∧ ∀ e ∈ l, KnownPair n e := by
  have hall : ∀ p ∈ s.members.flatMap (fun x => t.members.map (x, ·)),
      ∃ l, eqs p.1 p.2 = some l ∧ ∀ e ∈ l, KnownPair n e := by
    intro p hp
    obtain ⟨x, hx, hp⟩ := List.mem_flatMap.1 hp
    obtain ⟨y, hy, rfl⟩ := List.mem_map.1 hp
    exact h x hx y hy
  obtain ⟨owed, howed, hknown⟩ := exists_mapM hall
  refine ⟨owed.flatten, by simp [crossWith, howed], fun e he => ?_⟩
  obtain ⟨l, hl, hmem⟩ := List.mem_flatten.1 he
  exact hknown l hl e hmem

theorem WellFormed.knownPair_of_zip (h : arena.WellFormed n) {p q : PointerVariable}
    (hp : arena.pointer? v = some p) (hq : arena.pointer? w = some q) :
    ∀ e ∈ p.atoms.zip q.atoms, KnownPair n e := fun _ he =>
  ⟨h.atom_lt hp (List.of_mem_zip he).1, h.atom_lt hq (List.of_mem_zip he).2⟩

/-- Only variables that are there have equations, the trivial ones apart. -/
theorem sizes_of_equationsWithin {eqs : List (Atom × Atom)} (hab : a ≠ b)
    (h : arena.equationsWithin (k + 1) a b = some eqs) : a < arena.size ∧ b < arena.size := by
  rw [equationsWithin, if_neg hab] at h
  obtain ⟨x, hx, h⟩ := Option.bind_eq_some_iff.1 h
  obtain ⟨y, hy, -⟩ := Option.bind_eq_some_iff.1 h
  exact ⟨(Array.getElem?_eq_some_iff.1 hx).1, (Array.getElem?_eq_some_iff.1 hy).1⟩

/-! One step of the walk, for each pair of kinds. -/

section

variable {p q : PointerVariable} {g : FunctionVariable}

/-- Of two pointers one of which leads to no function, only the levels are paired. -/
theorem equationsWithin_pointers (hab : a ≠ b) (hp : arena.pointer? a = some p)
    (hq : arena.pointer? b = some q) (hnone : p.function = none ∨ q.function = none) :
    arena.equationsWithin (k + 1) a b = some (p.atoms.zip q.atoms) := by
  have hgetp := getElem?_of_pointer? hp
  have hgetq := getElem?_of_pointer? hq
  rcases hnone with hnone | hnone
  · simp [equationsWithin, hab, hgetp, hgetq, hnone]
  · simp [equationsWithin, hab, hgetp, hgetq, hnone]

/-- If both lead to functions, the equations of these come after those of the levels. -/
theorem equationsWithin_attached {x y : VarId} (hab : a ≠ b) (hp : arena.pointer? a = some p)
    (hq : arena.pointer? b = some q) (hx : p.function = some x) (hy : q.function = some y) :
    arena.equationsWithin (k + 1) a b =
      (arena.equationsWithin k x y).map (p.atoms.zip q.atoms ++ ·) := by
  have hgetp := getElem?_of_pointer? hp
  have hgetq := getElem?_of_pointer? hq
  cases hbelow : arena.equationsWithin k x y <;>
    simp [equationsWithin, hab, hgetp, hgetq, hx, hy, hbelow]

/-- A pointer to a function is paired with a function by the one it leads to. -/
theorem equationsWithin_pointed {x : VarId} (hab : a ≠ b) (hp : arena.pointer? a = some p)
    (hg : arena.function? b = some g) (hx : p.function = some x) :
    arena.equationsWithin (k + 1) a b = arena.equationsWithin k x b := by
  simp [equationsWithin, hab, getElem?_of_pointer? hp, getElem?_of_function? hg, hx]

/-- A pointer that leads nowhere is paired with what the function returns. -/
theorem equationsWithin_returned (hab : a ≠ b) (hp : arena.pointer? a = some p)
    (hg : arena.function? b = some g) (hnone : p.function = none) :
    arena.equationsWithin (k + 1) a b =
      crossWith (arena.equationsWithin k) (.singleton a) g.returns := by
  simp [equationsWithin, hab, getElem?_of_pointer? hp, getElem?_of_function? hg, hnone]

/-- A pointer and a function have the same equations in either order. -/
theorem equationsWithin_comm (hp : arena.pointer? a = some p) (hg : arena.function? b = some g) :
    arena.equationsWithin (k + 1) b a = arena.equationsWithin (k + 1) a b := by
  have hgetp := getElem?_of_pointer? hp
  have hgetg := getElem?_of_function? hg
  by_cases hab : a = b
  · rw [hab]
  · have hba : b ≠ a := fun h => hab h.symm
    cases hx : p.function <;> simp [equationsWithin, hab, hba, hgetp, hgetg, hx]

/-- Two functions of as many parameters are paired slot by slot. -/
theorem equationsWithin_functions (hab : a ≠ b) (hf : arena.function? a = some f)
    (hg : arena.function? b = some g) (hlen : f.params.length = g.params.length) :
    arena.equationsWithin (k + 1) a b = (do
      let returns ← crossWith (arena.equationsWithin k) f.returns g.returns
      let params ← (f.params.zip g.params).mapM fun s =>
        crossWith (arena.equationsWithin k) s.1 s.2
      return returns ++ params.flatten) := by
  simp [equationsWithin, hab, getElem?_of_function? hf, getElem?_of_function? hg, hlen]

/-- Two functions of different arity are paired by their returns only. -/
theorem equationsWithin_uneven (hab : a ≠ b) (hf : arena.function? a = some f)
    (hg : arena.function? b = some g) (hlen : f.params.length ≠ g.params.length) :
    arena.equationsWithin (k + 1) a b =
      crossWith (arena.equationsWithin k) f.returns g.returns := by
  simp [equationsWithin, hab, getElem?_of_function? hf, getElem?_of_function? hg, hlen]

end

/-- In `k` steps the walk comes to its end from every pair that is not too far up. -/
def WalksWithin (arena : Arena) (n k : Nat) : Prop := ∀ {a b : Nat}, a + b < k →
  a < arena.size → b < arena.size →
    ∃ eqs, arena.equationsWithin k a b = some eqs ∧ ∀ e ∈ eqs, KnownPair n e

namespace WalksWithin

variable {p q : PointerVariable} {g : FunctionVariable} {s t : VarSet}

/-- The walk goes on with an older variable on one side or on both. -/
theorem add_lt {x y : Nat} (hk : a + b < k + 1) (hx : x ≤ a) (hy : y ≤ b) (h : x < a ∨ y < b) :
    x + y < k := by omega

theorem cross (hw : arena.WalksWithin n k)
    (h : ∀ x ∈ s, ∀ y ∈ t, x + y < k ∧ x < arena.size ∧ y < arena.size) :
    ∃ l, crossWith (arena.equationsWithin k) s t = some l ∧ ∀ e ∈ l, KnownPair n e := by
  apply exists_crossWith
  intro x hx y hy
  obtain ⟨hlt, hxs, hys⟩ := h x hx y hy
  exact hw hlt hxs hys

/-- Two pointers: one step down on either side at least. -/
theorem pointers (hw : arena.WalksWithin n k) (h : arena.WellFormed n) (hk : a + b < k + 1)
    (hab : a ≠ b) (hp : arena.pointer? a = some p) (hq : arena.pointer? b = some q) :
    ∃ eqs, arena.equationsWithin (k + 1) a b = some eqs ∧ ∀ e ∈ eqs, KnownPair n e := by
  have hzip := h.knownPair_of_zip hp hq
  cases hx : p.function with
  | none => exact ⟨_, equationsWithin_pointers hab hp hq (.inl hx), hzip⟩
  | some x =>
    cases hy : q.function with
    | none => exact ⟨_, equationsWithin_pointers hab hp hq (.inr hy), hzip⟩
    | some y =>
      obtain ⟨hxa, hxf⟩ := h.attached hp hx
      obtain ⟨hyb, hyf⟩ := h.attached hq hy
      have hlt := add_lt hk (Nat.le_of_lt hxa) (Nat.le_of_lt hyb) (.inl hxa)
      obtain ⟨below, hbelow, hall⟩ := hw hlt (lt_of_isFunction hxf) (lt_of_isFunction hyf)
      refine ⟨p.atoms.zip q.atoms ++ below, ?_, fun e he => ?_⟩
      · rw [equationsWithin_attached hab hp hq hx hy, hbelow]
        rfl
      · exact (List.mem_append.1 he).elim (hzip e) (hall e)

/-- A pointer and a function. -/
theorem mixed (hw : arena.WalksWithin n k) (h : arena.WellFormed n) (hk : a + b < k + 1)
    (hab : a ≠ b) (hp : arena.pointer? a = some p) (hg : arena.function? b = some g) :
    ∃ eqs, arena.equationsWithin (k + 1) a b = some eqs ∧ ∀ e ∈ eqs, KnownPair n e := by
  cases hx : p.function with
  | none =>
    rw [equationsWithin_returned hab hp hg hx]
    apply hw.cross
    intro x hx y hy
    obtain ⟨hyb, hys⟩ := h.slot_lt hg List.mem_cons_self hy
    rw [(VarSet.mem_singleton a x).1 hx]
    exact ⟨add_lt hk (Nat.le_refl a) (Nat.le_of_lt hyb) (.inr hyb), lt_of_pointer? hp, hys⟩
  | some x =>
    rw [equationsWithin_pointed hab hp hg hx]
    obtain ⟨hxa, hxf⟩ := h.attached hp hx
    have hlt := add_lt hk (Nat.le_of_lt hxa) (Nat.le_refl b) (.inl hxa)
    exact hw hlt (lt_of_isFunction hxf) (lt_of_function? hg)

/-- Two functions: both go down to their slots. -/
theorem functions (hw : arena.WalksWithin n k) (h : arena.WellFormed n) (hk : a + b < k + 1)
    (hab : a ≠ b) (hf : arena.function? a = some f) (hg : arena.function? b = some g) :
    ∃ eqs, arena.equationsWithin (k + 1) a b = some eqs ∧ ∀ e ∈ eqs, KnownPair n e := by
  have hslots : ∀ {s t : VarSet}, s ∈ f.slots → t ∈ g.slots →
      ∃ l, crossWith (arena.equationsWithin k) s t = some l ∧ ∀ e ∈ l, KnownPair n e := by
    intro s t hs ht
    apply hw.cross
    intro x hx y hy
    obtain ⟨hxa, hxs⟩ := h.slot_lt hf hs hx
    obtain ⟨hyb, hys⟩ := h.slot_lt hg ht hy
    exact ⟨add_lt hk (Nat.le_of_lt hxa) (Nat.le_of_lt hyb) (.inl hxa), hxs, hys⟩
  obtain ⟨returns, hreturns, hall⟩ := hslots (s := f.returns) (t := g.returns) List.mem_cons_self
    List.mem_cons_self
  by_cases hlen : f.params.length = g.params.length
  · have hparams : ∀ e ∈ f.params.zip g.params, ∃ l,
        crossWith (arena.equationsWithin k) e.1 e.2 = some l ∧ ∀ e ∈ l, KnownPair n e :=
      fun e he => hslots (List.mem_cons_of_mem _ (List.of_mem_zip he).1)
        (List.mem_cons_of_mem _ (List.of_mem_zip he).2)
    obtain ⟨params, hparams, hknown⟩ := exists_mapM hparams
    refine ⟨returns ++ params.flatten, ?_, fun e he => ?_⟩
    · rw [equationsWithin_functions hab hf hg hlen, hreturns, hparams]
      rfl
    · rcases List.mem_append.1 he with he | he
      · exact hall e he
      · obtain ⟨l, hl, hmem⟩ := List.mem_flatten.1 he
        exact hknown l hl e hmem
  · exact ⟨returns, (equationsWithin_uneven hab hf hg hlen).trans hreturns, hall⟩

end WalksWithin

/-- A walk comes to its end in as many steps as its two variables are far up. -/
theorem WellFormed.walksWithin (h : arena.WellFormed n) (k : Nat) : arena.WalksWithin n k := by
  induction k with
  | zero => exact fun hk => absurd hk (Nat.not_lt_zero _)
  | succ k ih =>
    intro a b hk ha hb
    by_cases hab : a = b
    · exact ⟨[], by rw [equationsWithin, if_pos hab], fun _ he => nomatch he⟩
    rcases pointer_or_function ha with ⟨p, -, hp⟩ | ⟨f, -, hf⟩
    · rcases pointer_or_function hb with ⟨q, -, hq⟩ | ⟨g, -, hg⟩
      · exact ih.pointers h hk hab hp hq
      · exact ih.mixed h hk hab hp hg
    · rcases pointer_or_function hb with ⟨q, -, hq⟩ | ⟨g, -, hg⟩
      · rw [equationsWithin_comm hq hf]
        exact ih.mixed h (Nat.add_comm a b ▸ hk) (fun h => hab h.symm) hq hf
      · exact ih.functions h hk hab hf hg

theorem WellFormed.exists_equations (h : arena.WellFormed n) (ha : a < arena.size)
    (hb : b < arena.size) :
    ∃ eqs, arena.equations? a b = some eqs ∧ ∀ e ∈ eqs, KnownPair n e :=
  h.walksWithin _ (Nat.lt_succ_self _) ha hb

/-- Pointers to no function are equated level by level, as far as both go. -/
theorem equations_of_pointers {p q : PointerVariable} (hp : arena.pointer? v = some p)
    (hq : arena.pointer? w = some q) (hne : v ≠ w) (hnone : p.function = none) :
    arena.equations? v w = some (p.atoms.zip q.atoms) :=
  equationsWithin_pointers hne hp hq (.inl hnone)

/-! ## Reports -/

/-- A report ends, since variables name older ones. -/
theorem WellFormed.exists_reportWithin (h : arena.WellFormed n) (sol : Solution) (hk : v < k)
    (hv : v < arena.size) : ∃ r, arena.reportWithin sol k v = some r := by
  induction k generalizing v with
  | zero => exact absurd hk (Nat.not_lt_zero v)
  | succ k ih =>
    rcases pointer_or_function hv with ⟨p, hget, hp⟩ | ⟨f, hget, hf⟩
    · cases hfun : p.function with
      | none => exact ⟨_, by simp [reportWithin, hget, hfun]; rfl⟩
      | some g =>
        obtain ⟨hlt, hg⟩ := h.attached hp hfun
        obtain ⟨r, hr⟩ := ih (Nat.lt_of_lt_of_le hlt (Nat.le_of_lt_succ hk)) (lt_of_isFunction hg)
        exact ⟨_, by simp [reportWithin, hget, hfun, hr]; rfl⟩
    · have hslot : ∀ slot ∈ f.slots, ∃ rs,
          slot.members.mapM (arena.reportWithin sol k) = some rs := by
        intro slot hslot
        apply exists_mapM_any
        intro w hw
        obtain ⟨hlt, hsize⟩ := h.slot_lt hf hslot hw
        exact ih (Nat.lt_of_lt_of_le hlt (Nat.le_of_lt_succ hk)) hsize
      obtain ⟨returns, hreturns⟩ := hslot f.returns List.mem_cons_self
      obtain ⟨params, hparams⟩ := exists_mapM_any fun slot hmem =>
        hslot slot (List.mem_cons_of_mem f.returns hmem)
      exact ⟨_, by simp [reportWithin, hget, hreturns, hparams]; rfl⟩

theorem WellFormed.exists_report (h : arena.WellFormed n) (sol : Solution) (hv : v < arena.size) :
    ∃ r, arena.report? sol v = some r :=
  h.exists_reportWithin sol (Nat.lt_succ_self v) hv

end Arena

end CheckedPointers
