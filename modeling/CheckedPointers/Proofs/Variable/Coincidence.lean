import CheckedPointers.Proofs.Variable.Ownership
import Mathlib.Data.List.Chain

/-!
What two variables have in common once they are equated, said without the walk that finds it: the
levels that both have, and slot by slot what the functions they denote take and return.
-/
namespace CheckedPointers

/-- What is gathered is gathered by every search that finds as much. -/
theorem mapM_eq_some {α β : Type} {g g' : α → Option β} {l : List α} {bs : List β}
    (h : l.mapM g = some bs) (hkept : ∀ a ∈ l, ∀ b, g a = some b → g' a = some b) :
    l.mapM g' = some bs := by
  induction l generalizing bs with
  | nil => exact h
  | cons a rest ih =>
    rw [List.mapM_cons] at h ⊢
    obtain ⟨b, hb, h⟩ := Option.bind_eq_some_iff.1 h
    obtain ⟨others, hothers, h⟩ := Option.bind_eq_some_iff.1 h
    rw [hkept a List.mem_cons_self b hb,
      ih hothers fun c hc => hkept c (List.mem_cons_of_mem a hc)]
    exact h

/-- What is gathered from other places is gathered in the same order. -/
theorem mapM_map_eq_some {α β γ δ : Type} {g : α → Option β} {g' : γ → Option δ} {r : α → γ}
    {r' : β → δ} {l : List α} {bs : List β} (h : l.mapM g = some bs)
    (hmoved : ∀ a ∈ l, ∀ b, g a = some b → g' (r a) = some (r' b)) :
    (l.map r).mapM g' = some (bs.map r') := by
  induction l generalizing bs with
  | nil =>
    cases h
    rfl
  | cons a rest ih =>
    rw [List.mapM_cons] at h
    obtain ⟨b, hb, h⟩ := Option.bind_eq_some_iff.1 h
    obtain ⟨others, hothers, h⟩ := Option.bind_eq_some_iff.1 h
    obtain rfl := Option.some.inj h
    rw [List.map_cons, List.mapM_cons, hmoved a List.mem_cons_self b hb,
      ih hothers fun c hc => hmoved c (List.mem_cons_of_mem a hc)]
    rfl

theorem exists_of_mapM {α β : Type} {g : α → Option β} {l : List α} {bs : List β} {a : α}
    (h : l.mapM g = some bs) (ha : a ∈ l) : ∃ b ∈ bs, g a = some b := by
  induction l generalizing bs with
  | nil => cases ha
  | cons c rest ih =>
    rw [List.mapM_cons] at h
    obtain ⟨b, hb, h⟩ := Option.bind_eq_some_iff.1 h
    obtain ⟨others, hothers, h⟩ := Option.bind_eq_some_iff.1 h
    obtain rfl := Option.some.inj h
    rcases List.mem_cons.1 ha with rfl | ha
    · exact ⟨b, List.mem_cons_self, hb⟩
    · obtain ⟨b', hmem, hb'⟩ := ih hothers ha
      exact ⟨b', List.mem_cons_of_mem b hmem, hb'⟩

theorem mem_of_mapM {α β : Type} {g : α → Option β} {l : List α} {bs : List β} {b : β}
    (h : l.mapM g = some bs) (hb : b ∈ bs) : ∃ a ∈ l, g a = some b := by
  induction l generalizing bs with
  | nil =>
    cases h
    cases hb
  | cons c rest ih =>
    rw [List.mapM_cons] at h
    obtain ⟨b', hb', h⟩ := Option.bind_eq_some_iff.1 h
    obtain ⟨others, hothers, h⟩ := Option.bind_eq_some_iff.1 h
    obtain rfl := Option.some.inj h
    rcases List.mem_cons.1 hb with rfl | hb
    · exact ⟨c, List.mem_cons_self, hb'⟩
    · obtain ⟨a, ha, hga⟩ := ih hothers hb
      exact ⟨a, List.mem_cons_of_mem c ha, hga⟩

/-- What holds of each two neighbours holds of any two, if it is an equivalence. -/
theorem rel_of_isChain {α : Type} {r : α → α → Prop} {l : List α} (hr : Equivalence r)
    (h : l.IsChain r) {a b : α} (ha : a ∈ l) (hb : b ∈ l) : r a b := by
  have : Trans r r r := ⟨hr.trans⟩
  have : Std.Symm r := ⟨fun _ _ => hr.symm⟩
  exact h.pairwise.forall_of_forall (fun x _ => hr.refl x) ha hb

namespace Arena

variable {arena arena' : Arena} {same same' : Atom → Atom → Prop} {P P' : Atom → Prop} {n : Nat}
  {a b v : VarId}

/-- What a walk over two sets finds it finds of some members. -/
theorem exists_of_crossWith {eqs : VarId → VarId → Option (List (Atom × Atom))} {s t : VarSet}
    (h : crossWith eqs s t = some l) (he : e ∈ l) :
    ∃ x ∈ s, ∃ y ∈ t, ∃ l', eqs x y = some l' ∧ e ∈ l' := by
  obtain ⟨owed, howed, h⟩ := Option.bind_eq_some_iff.1 h
  obtain rfl := Option.some.inj h
  obtain ⟨l', hl', he⟩ := List.mem_flatten.1 he
  obtain ⟨⟨x, y⟩, hpair, hxy⟩ := mem_of_mapM howed hl'
  obtain ⟨x', hx, hmem⟩ := List.mem_flatMap.1 hpair
  obtain ⟨y', hy, hpair⟩ := List.mem_map.1 hmem
  cases hpair
  exact ⟨x, hx, y, hy, l', hxy, he⟩

/-! ## All atoms of a variable -/

def All (arena : Arena) (P : Atom → Prop) (v : VarId) : Prop :=
  ∃ atoms, arena.atoms? v = some atoms ∧ ∀ a ∈ atoms, P a

/-- A walk down finds the same atoms in an arena that has grown. -/
theorem Grows.atomsWithin_eq (hg : arena.Grows arena') {atoms : List Atom}
    (h : arena.atomsWithin n v = some atoms) : arena'.atomsWithin n v = some atoms := by
  induction n generalizing v atoms with
  | zero => cases h
  | succ n ih =>
    obtain ⟨x, hx, h⟩ := Option.bind_eq_some_iff.1 h
    refine Option.bind_eq_some_iff.2 ⟨x, hg v x hx, ?_⟩
    cases x with
    | pointer p =>
      dsimp only at h ⊢
      split at h
      · obtain ⟨below, hbelow, h⟩ := Option.bind_eq_some_iff.1 h
        exact Option.bind_eq_some_iff.2 ⟨below, ih hbelow, h⟩
      · exact h
    | function f =>
      obtain ⟨owned, howned, h⟩ := Option.bind_eq_some_iff.1 h
      exact Option.bind_eq_some_iff.2 ⟨owned, mapM_eq_some howned fun w _ _ => ih, h⟩

/-- More steps find the same atoms. -/
theorem atomsWithin_mono {m : Nat} {atoms : List Atom} (h : arena.atomsWithin n v = some atoms)
    (hnm : n ≤ m) : arena.atomsWithin m v = some atoms := by
  induction n generalizing m v atoms with
  | zero => cases h
  | succ n ih =>
    obtain ⟨m, rfl⟩ : ∃ m', m = m' + 1 := ⟨m - 1, by omega⟩
    have hnm : n ≤ m := by omega
    obtain ⟨x, hx, h⟩ := Option.bind_eq_some_iff.1 h
    refine Option.bind_eq_some_iff.2 ⟨x, hx, ?_⟩
    cases x with
    | pointer p =>
      dsimp only at h ⊢
      split at h
      · obtain ⟨below, hbelow, h⟩ := Option.bind_eq_some_iff.1 h
        exact Option.bind_eq_some_iff.2 ⟨below, ih hbelow hnm, h⟩
      · exact h
    | function f =>
      obtain ⟨owned, howned, h⟩ := Option.bind_eq_some_iff.1 h
      exact Option.bind_eq_some_iff.2
        ⟨owned, mapM_eq_some howned fun w _ _ hw => ih hw hnm, h⟩

/-- More steps report the same. -/
theorem reportWithin_mono {m : Nat} {sol : Solution} {r : Report}
    (h : arena.reportWithin sol n v = some r) (hnm : n ≤ m) :
    arena.reportWithin sol m v = some r := by
  induction n generalizing m v r with
  | zero => cases h
  | succ n ih =>
    obtain ⟨m, rfl⟩ : ∃ m', m = m' + 1 := ⟨m - 1, by omega⟩
    have hnm : n ≤ m := by omega
    have hslot (slot : VarSet) (rs : List Report)
        (hrs : slot.members.mapM (arena.reportWithin sol n) = some rs) :
        slot.members.mapM (arena.reportWithin sol m) = some rs :=
      mapM_eq_some hrs fun w _ _ hw => ih hw hnm
    obtain ⟨x, hx, h⟩ := Option.bind_eq_some_iff.1 h
    refine Option.bind_eq_some_iff.2 ⟨x, hx, ?_⟩
    cases x with
    | pointer p =>
      dsimp only at h ⊢
      split at h
      · obtain ⟨below, hbelow, h⟩ := Option.bind_eq_some_iff.1 h
        exact Option.bind_eq_some_iff.2 ⟨below, ih hbelow hnm, h⟩
      · exact h
    | function f =>
      obtain ⟨returns, hreturns, h⟩ := Option.bind_eq_some_iff.1 h
      obtain ⟨params, hparams, h⟩ := Option.bind_eq_some_iff.1 h
      refine Option.bind_eq_some_iff.2 ⟨returns, hslot _ _ hreturns, ?_⟩
      exact Option.bind_eq_some_iff.2
        ⟨params, mapM_eq_some hparams fun slot _ rs => hslot slot rs, h⟩

def Owns (arena : Arena) (v : VarId) (a : Atom) : Prop :=
  ∃ atoms, arena.atoms? v = some atoms ∧ a ∈ atoms

theorem All.of_owns (h : arena.All P v) {a : Atom} (ha : arena.Owns v a) : P a := by
  obtain ⟨atoms, hatoms, hall⟩ := h
  obtain ⟨atoms', hatoms', hmem⟩ := ha
  obtain rfl := Option.some.inj (hatoms.symm.trans hatoms')
  exact hall a hmem

/-- A function owns what its slots own. -/
theorem WellFormed.owns_function {k : Nat} (h : arena.WellFormed k) {f : FunctionVariable}
    (hf : arena.function? v = some f) {a : Atom} :
    arena.Owns v a ↔ ∃ slot ∈ f.slots, ∃ p ∈ slot, arena.Owns p a := by
  obtain ⟨atoms, hatoms, -⟩ := h.exists_atoms (lt_of_function? hf)
  have hslot : ∀ p ∈ f.slots.flatMap VarSet.members, ∃ owned, arena.atoms? p = some owned ∧
      arena.atomsWithin v p = some owned := by
    intro p hp
    obtain ⟨slot, hslot, hp⟩ := List.mem_flatMap.1 hp
    obtain ⟨hlt, hsize⟩ := h.slot_lt hf hslot hp
    obtain ⟨owned, howned, -⟩ := h.exists_atoms hsize
    exact ⟨owned, howned, atomsWithin_mono howned hlt⟩
  have hwalk := hatoms
  rw [atoms?, atomsWithin, getElem?_of_function? hf] at hwalk
  change (f.slots.flatMap VarSet.members).mapM (arena.atomsWithin v) >>= (some ·.flatten) =
    some atoms at hwalk
  obtain ⟨owned, howned, he⟩ := Option.bind_eq_some_iff.1 hwalk
  obtain rfl := Option.some.inj he
  constructor
  · rintro ⟨atoms', hatoms', ha⟩
    obtain rfl := Option.some.inj (hatoms.symm.trans hatoms')
    obtain ⟨l, hl, ha⟩ := List.mem_flatten.1 ha
    obtain ⟨p, hp, hpl⟩ := mem_of_mapM howned hl
    obtain ⟨l', hl', hpl'⟩ := hslot p hp
    obtain rfl := Option.some.inj (hpl.symm.trans hpl')
    obtain ⟨slot, hslot, hp⟩ := List.mem_flatMap.1 hp
    exact ⟨slot, hslot, p, hp, l, hl', ha⟩
  · rintro ⟨slot, hslot', p, hp, l, hl, ha⟩
    have hmem := List.mem_flatMap.2 ⟨slot, hslot', hp⟩
    obtain ⟨l', hl', hpl⟩ := hslot p hmem
    obtain rfl := Option.some.inj (hl.symm.trans hl')
    obtain ⟨l', hl', hpl'⟩ := exists_of_mapM howned hmem
    obtain rfl := Option.some.inj (hpl.symm.trans hpl')
    exact ⟨_, hatoms, List.mem_flatten.2 ⟨l, hl', ha⟩⟩

theorem WellFormed.all_function {k : Nat} (h : arena.WellFormed k) {f : FunctionVariable}
    (hf : arena.function? v = some f) (hslots : ∀ slot ∈ f.slots, ∀ p ∈ slot, arena.All P p) :
    arena.All P v := by
  obtain ⟨atoms, hatoms, -⟩ := h.exists_atoms (lt_of_function? hf)
  refine ⟨atoms, hatoms, fun a ha => ?_⟩
  obtain ⟨slot, hslot, p, hp, howns⟩ := (h.owns_function hf).1 ⟨atoms, hatoms, ha⟩
  exact (hslots slot hslot p hp).of_owns howns

theorem All.imp (h : arena.All P v) (hg : arena.Grows arena') (hP : ∀ a, P a → P' a) :
    arena'.All P' v := by
  obtain ⟨atoms, hatoms, hall⟩ := h
  exact ⟨atoms, hg.atomsWithin_eq hatoms, fun a ha => hP a (hall a ha)⟩

/-! ## Equations in a larger arena -/

/-- A walk over two sets comes to the same where the walks over their members do. -/
theorem crossWith_eq_some {eqs eqs' : VarId → VarId → Option (List (Atom × Atom))} {s t : VarSet}
    {l : List (Atom × Atom)} (h : crossWith eqs s t = some l)
    (hkept : ∀ {x y l}, eqs x y = some l → eqs' x y = some l) :
    crossWith eqs' s t = some l := by
  obtain ⟨owed, howed, h⟩ := Option.bind_eq_some_iff.1 h
  exact Option.bind_eq_some_iff.2 ⟨owed, mapM_eq_some howed fun _ _ _ => hkept, h⟩

/-- Two walks down find the same equations there. -/
theorem Grows.equationsWithin_eq (hg : arena.Grows arena') {l : List (Atom × Atom)}
    (h : arena.equationsWithin n a b = some l) : arena'.equationsWithin n a b = some l := by
  induction n generalizing a b l with
  | zero => cases h
  | succ n ih =>
    by_cases hab : a = b
    · rwa [equationsWithin, if_pos hab] at h ⊢
    rw [equationsWithin, if_neg hab] at h ⊢
    obtain ⟨x, hx, h⟩ := Option.bind_eq_some_iff.1 h
    obtain ⟨y, hy, h⟩ := Option.bind_eq_some_iff.1 h
    refine Option.bind_eq_some_iff.2 ⟨x, hg a x hx, Option.bind_eq_some_iff.2 ⟨y, hg b y hy, ?_⟩⟩
    cases x with
    | pointer p =>
      cases y with
      | pointer q =>
        dsimp only at h ⊢
        split at h
        · obtain ⟨below, hbelow, h⟩ := Option.bind_eq_some_iff.1 h
          exact Option.bind_eq_some_iff.2 ⟨below, ih hbelow, h⟩
        · exact h
      | function g =>
        dsimp only at h ⊢
        split at h
        · exact ih h
        · exact crossWith_eq_some h ih
    | function f =>
      cases y with
      | pointer q =>
        dsimp only at h ⊢
        split at h
        · exact ih h
        · exact crossWith_eq_some h ih
      | function g =>
        obtain ⟨returns, hreturns, h⟩ := Option.bind_eq_some_iff.1 h
        refine Option.bind_eq_some_iff.2 ⟨returns, crossWith_eq_some hreturns ih, ?_⟩
        by_cases hlen : f.params.length = g.params.length
        · rw [if_pos hlen] at h ⊢
          obtain ⟨params, hparams, h⟩ := Option.bind_eq_some_iff.1 h
          exact Option.bind_eq_some_iff.2
            ⟨params, mapM_eq_some hparams fun _ _ _ hs => crossWith_eq_some hs ih, h⟩
        · rwa [if_neg hlen] at h ⊢

/-! ## Coincidence -/

/-- Two variables have in common what both have, where atoms that are the `same` count as one. -/
inductive Coincide (arena : Arena) (same : Atom → Atom → Prop) : VarId → VarId → Prop where
  | refl {a : VarId} : Coincide arena same a a
  | symm {a b : VarId} (h : Coincide arena same a b) : Coincide arena same b a
  /-- Pointers have their levels in common, and so have the functions that they point to. -/
  | pointers {a b : VarId} {p q : PointerVariable} (hp : arena.pointer? a = some p)
      (hq : arena.pointer? b = some q) (levels : ∀ e ∈ p.atoms.zip q.atoms, same e.1 e.2)
      (functions : ∀ f g, p.function = some f → q.function = some g → Coincide arena same f g) :
      Coincide arena same a b
  /-- Functions have their returns in common, and if they have as many, their parameters. -/
  | functions {a b : VarId} {f g : FunctionVariable} (hf : arena.function? a = some f)
      (hg : arena.function? b = some g)
      (returns : ∀ x ∈ f.returns, ∀ y ∈ g.returns, Coincide arena same x y)
      (params : f.params.length = g.params.length → ∀ slots ∈ f.params.zip g.params,
        ∀ x ∈ slots.1, ∀ y ∈ slots.2, Coincide arena same x y) : Coincide arena same a b
  /-- A pointer to a function stands for the function. -/
  | pointed {a b f : VarId} {p : PointerVariable} (hp : arena.pointer? a = some p)
      (hf : p.function = some f) (hb : arena.isFunction b) (h : Coincide arena same f b) :
      Coincide arena same a b
  /-- Any other pointer stands for what a function returns. -/
  | returned {a b : VarId} {p : PointerVariable} {g : FunctionVariable}
      (hp : arena.pointer? a = some p) (hnone : p.function = none)
      (hg : arena.function? b = some g) (h : ∀ r ∈ g.returns, Coincide arena same a r) :
      Coincide arena same a b

theorem Coincide.imp (h : arena.Coincide same a b) (hg : arena.Grows arena')
    (hsame : ∀ x y, same x y → same' x y) : arena'.Coincide same' a b := by
  induction h with
  | refl => exact .refl
  | symm _ ih => exact .symm ih
  | pointers hp hq levels _ ih =>
    exact .pointers (hg.pointer? hp) (hg.pointer? hq) (fun e he => hsame _ _ (levels e he)) ih
  | functions hf hf' _ _ returns params =>
    exact .functions (hg.function? hf) (hg.function? hf') returns params
  | pointed hp hf hb _ ih => exact .pointed (hg.pointer? hp) hf (hg.isFunction hb) ih
  | returned hp hnone hf _ ih => exact .returned (hg.pointer? hp) hnone (hg.function? hf) ih

theorem pointer?_ne_of_function? {p : PointerVariable} {f : FunctionVariable}
    (hf : arena.function? v = some f) : arena.pointer? v ≠ some p :=
  fun hp => not_isFunction (isPointer_iff.2 ⟨p, hp⟩) (isFunction_iff.2 ⟨f, hf⟩)

/-- Pointers that coincide agree on every level that both have. -/
theorem Coincide.level {p q : PointerVariable} (h : arena.Coincide same a b)
    (hrefl : ∀ x, same x x) (hsymm : ∀ {x y}, same x y → same y x)
    (hp : arena.pointer? a = some p) (hq : arena.pointer? b = some q)
    {i : Nat} {x y : Atom} (hx : p.atoms[i]? = some x) (hy : q.atoms[i]? = some y) :
    same x y := by
  induction h generalizing p q x y with
  | refl =>
    obtain rfl := Option.some.inj (hp.symm.trans hq)
    obtain rfl := Option.some.inj (hx.symm.trans hy)
    exact hrefl x
  | symm _ ih => exact hsymm (ih hq hp hy hx)
  | pointers hp' hq' levels _ _ =>
    obtain rfl := Option.some.inj (hp.symm.trans hp')
    obtain rfl := Option.some.inj (hq.symm.trans hq')
    apply levels (x, y)
    apply List.mem_of_getElem? (i := i)
    rw [List.getElem?_zip_eq_some]
    exact ⟨hx, hy⟩
  | functions hf' _ _ _ _ _ => exact absurd hp (pointer?_ne_of_function? hf')
  | pointed _ _ hb _ _ =>
    obtain ⟨g', hg'⟩ := isFunction_iff.1 hb
    exact absurd hq (pointer?_ne_of_function? hg')
  | returned _ _ hg' _ _ => exact absurd hq (pointer?_ne_of_function? hg')

theorem Coincide.levels {p q : PointerVariable} (h : arena.Coincide same a b)
    (hsame : Equivalence same) (hp : arena.pointer? a = some p) (hq : arena.pointer? b = some q)
    {i : Nat} {x y : Atom} (hx : p.atoms[i]? = some x) (hy : q.atoms[i]? = some y) :
    same x y := h.level hsame.refl hsame.symm hp hq hx hy

/-- Pointers that coincide point to functions that do. -/
theorem Coincide.attached {p q : PointerVariable} {f g : VarId} (h : arena.Coincide same a b)
    (hp : arena.pointer? a = some p) (hq : arena.pointer? b = some q) (hf : p.function = some f)
    (hg : q.function = some g) : arena.Coincide same f g := by
  induction h generalizing p q f g with
  | refl =>
    obtain rfl := Option.some.inj (hp.symm.trans hq)
    obtain rfl := Option.some.inj (hf.symm.trans hg)
    exact .refl
  | symm _ ih => exact .symm (ih hq hp hg hf)
  | pointers hp' hq' _ functions _ =>
    obtain rfl := Option.some.inj (hp.symm.trans hp')
    obtain rfl := Option.some.inj (hq.symm.trans hq')
    exact functions f g hf hg
  | functions hf' _ _ _ _ _ => exact absurd hp (pointer?_ne_of_function? hf')
  | pointed _ _ hb _ _ =>
    obtain ⟨g', hg'⟩ := isFunction_iff.1 hb
    exact absurd hq (pointer?_ne_of_function? hg')
  | returned _ _ hg' _ _ => exact absurd hq (pointer?_ne_of_function? hg')

/-- A pointer that coincides with a function points to one that does, if it points to one. -/
theorem Coincide.ofPointed (h : arena.Coincide same a b) :
    (∀ p f, arena.pointer? a = some p → p.function = some f → arena.isFunction b →
      arena.Coincide same f b) ∧
    ∀ p f, arena.pointer? b = some p → p.function = some f → arena.isFunction a →
      arena.Coincide same f a := by
  have clash {v : VarId} {p : PointerVariable} (hp : arena.pointer? v = some p)
      (hv : arena.isFunction v) : False := not_isFunction (isPointer_iff.2 ⟨p, hp⟩) hv
  induction h with
  | refl => exact ⟨fun _ _ hp _ hv => (clash hp hv).elim, fun _ _ hp _ hv => (clash hp hv).elim⟩
  | symm _ ih => exact ih.symm
  | pointers hp hq _ _ _ =>
    exact ⟨fun _ _ _ _ hb => (clash hq hb).elim, fun _ _ _ _ ha => (clash hp ha).elim⟩
  | functions hf hg _ _ _ _ =>
    exact ⟨fun _ _ hp _ _ => absurd hp (pointer?_ne_of_function? hf),
      fun _ _ hp _ _ => absurd hp (pointer?_ne_of_function? hg)⟩
  | pointed hp hf hb h _ =>
    refine ⟨fun p f hp' hf' _ => ?_, fun _ _ hp' _ _ => (clash hp' hb).elim⟩
    obtain rfl := Option.some.inj (hp.symm.trans hp')
    obtain rfl := Option.some.inj (hf.symm.trans hf')
    exact h
  | returned hp hnone hg _ _ =>
    refine ⟨fun p f hp' hf' _ => ?_, fun _ _ hp' _ _ => absurd hp' (pointer?_ne_of_function? hg)⟩
    obtain rfl := Option.some.inj (hp.symm.trans hp')
    cases hnone.symm.trans hf'

/-- Any other pointer that coincides with a function coincides with what it returns. -/
theorem Coincide.ofReturned (h : arena.Coincide same a b) :
    (∀ p g, arena.pointer? a = some p → p.function = none → arena.function? b = some g →
      ∀ r ∈ g.returns, arena.Coincide same a r) ∧
    ∀ p g, arena.pointer? b = some p → p.function = none → arena.function? a = some g →
      ∀ r ∈ g.returns, arena.Coincide same b r := by
  have clash {v : VarId} {p : PointerVariable} {g : FunctionVariable}
      (hp : arena.pointer? v = some p) (hg : arena.function? v = some g) : False :=
    pointer?_ne_of_function? hg hp
  induction h with
  | refl => exact ⟨fun _ _ hp _ hg => (clash hp hg).elim, fun _ _ hp _ hg => (clash hp hg).elim⟩
  | symm _ ih => exact ih.symm
  | pointers hp hq _ _ _ =>
    exact ⟨fun _ _ _ _ hg => (clash hq hg).elim, fun _ _ _ _ hg => (clash hp hg).elim⟩
  | functions hf hg _ _ _ _ =>
    exact ⟨fun _ _ hp _ _ => (clash hp hf).elim, fun _ _ hp _ _ => (clash hp hg).elim⟩
  | pointed hp hf hb _ _ =>
    obtain ⟨g', hg'⟩ := isFunction_iff.1 hb
    refine ⟨fun p g hp' hnone _ => ?_, fun _ _ hp' _ _ => (clash hp' hg').elim⟩
    obtain rfl := Option.some.inj (hp.symm.trans hp')
    cases hnone.symm.trans hf
  | returned hp hnone hg h _ =>
    refine ⟨fun p g hp' _ hg' => ?_, fun _ _ hp' _ _ => (clash hp' hg).elim⟩
    obtain rfl := Option.some.inj (hg.symm.trans hg')
    exact h

/-- Functions that coincide return the same, and with as many parameters they take the same. -/
theorem Coincide.slot {f g : FunctionVariable} (h : arena.Coincide same a b)
    (hwf : arena.WellFormed n) (hf : arena.function? a = some f)
    (hg : arena.function? b = some g) {i : Nat}
    (hi : i = 0 ∨ f.params.length = g.params.length)
    {slot slot' : VarSet} (hslot : f.slots[i]? = some slot) (hslot' : g.slots[i]? = some slot') :
    ∀ x ∈ slot, ∀ y ∈ slot', arena.Coincide same x y := by
  induction h generalizing f g slot slot' with
  | refl =>
    obtain rfl := Option.some.inj (hf.symm.trans hg)
    obtain rfl := Option.some.inj (hslot.symm.trans hslot')
    intro x hx y hy
    rcases hwf.slots hf (List.mem_of_getElem? hslot) with rfl | ⟨w, rfl, -⟩
    · exact absurd hx (VarSet.not_mem_empty x)
    · rw [(VarSet.mem_singleton w x).1 hx, (VarSet.mem_singleton w y).1 hy]
      exact .refl
  | symm _ ih =>
    exact fun x hx y hy => .symm (ih hg hf (hi.imp_right Eq.symm) hslot' hslot y hy x hx)
  | functions hf' hg' returns params _ _ =>
    obtain rfl := Option.some.inj (hf.symm.trans hf')
    obtain rfl := Option.some.inj (hg.symm.trans hg')
    cases i with
    | zero =>
      cases hslot
      cases hslot'
      exact returns
    | succ i =>
      apply params (hi.resolve_left (Nat.succ_ne_zero i)) (slot, slot')
      apply List.mem_of_getElem? (i := i)
      rw [List.getElem?_zip_eq_some]
      exact ⟨hslot, hslot'⟩
  | pointers hp _ _ _ _ => exact absurd hp (pointer?_ne_of_function? hf)
  | pointed hp _ _ _ _ => exact absurd hp (pointer?_ne_of_function? hf)
  | returned hp _ _ _ _ => exact absurd hp (pointer?_ne_of_function? hf)

theorem Coincide.slots {f g : FunctionVariable} (h : arena.Coincide same a b)
    (hwf : arena.WellFormed n) (hf : arena.function? a = some f)
    (hg : arena.function? b = some g) (hlen : f.params.length = g.params.length) {i : Nat}
    {slot slot' : VarSet} (hslot : f.slots[i]? = some slot) (hslot' : g.slots[i]? = some slot') :
    ∀ x ∈ slot, ∀ y ∈ slot', arena.Coincide same x y := h.slot hwf hf hg (.inr hlen) hslot hslot'

/-- Variables coincide whose equations are found and hold. -/
def EquatesWithin (arena : Arena) (same : Atom → Atom → Prop)
    (eqs : VarId → VarId → Option (List (Atom × Atom))) : Prop :=
  ∀ {a b : VarId} {l : List (Atom × Atom)}, eqs a b = some l → (∀ e ∈ l, same e.1 e.2) →
    arena.Coincide same a b

namespace EquatesWithin

variable {eqs : VarId → VarId → Option (List (Atom × Atom))} {l : List (Atom × Atom)}
  {p q : PointerVariable} {f g : FunctionVariable}

/-- Sets whose equations hold coincide. -/
theorem cross (heqs : arena.EquatesWithin same eqs) {s t : VarSet}
    (h : crossWith eqs s t = some l) (hsame : ∀ e ∈ l, same e.1 e.2) :
    ∀ x ∈ s, ∀ y ∈ t, arena.Coincide same x y := by
  intro x hx y hy
  obtain ⟨owed, howed, h⟩ := Option.bind_eq_some_iff.1 h
  obtain rfl := Option.some.inj h
  have hpair : (x, y) ∈ s.members.flatMap fun x => t.members.map (x, ·) :=
    List.mem_flatMap.2 ⟨x, hx, List.mem_map.2 ⟨y, hy, rfl⟩⟩
  obtain ⟨l, hl, hxy⟩ := exists_of_mapM howed hpair
  exact heqs hxy fun e he => hsame e (List.mem_flatten.2 ⟨l, hl, he⟩)

/-- The same slot by slot, for the parameters of functions. -/
theorem slots (heqs : arena.EquatesWithin same eqs) {slots : List (VarSet × VarSet)}
    {ls : List (List (Atom × Atom))} (h : slots.mapM (fun e => crossWith eqs e.1 e.2) = some ls)
    (hsame : ∀ e ∈ ls.flatten, same e.1 e.2) :
    ∀ e ∈ slots, ∀ x ∈ e.1, ∀ y ∈ e.2, arena.Coincide same x y := by
  intro e he
  obtain ⟨l, hl, hslot⟩ := exists_of_mapM h he
  exact heqs.cross hslot fun e he => hsame e (List.mem_flatten.2 ⟨l, hl, he⟩)

/-! One step of the walk, for each pair of kinds. -/

/-- Two pointers coincide if the equations of their levels and of their functions hold. -/
theorem pointers (heqs : arena.EquatesWithin same (arena.equationsWithin n)) (hab : a ≠ b)
    (hp : arena.pointer? a = some p) (hq : arena.pointer? b = some q)
    (h : arena.equationsWithin (n + 1) a b = some l) (hsame : ∀ e ∈ l, same e.1 e.2) :
    arena.Coincide same a b := by
  by_cases hnone : p.function = none ∨ q.function = none
  · rw [equationsWithin_pointers hab hp hq hnone] at h
    obtain rfl := Option.some.inj h
    refine .pointers hp hq hsame fun f g hf hg => ?_
    rcases hnone with hnone | hnone
    · cases hf.symm.trans hnone
    · cases hg.symm.trans hnone
  · obtain ⟨hpf, hqf⟩ := not_or.1 hnone
    obtain ⟨f, hf⟩ := Option.ne_none_iff_exists'.1 hpf
    obtain ⟨g, hg⟩ := Option.ne_none_iff_exists'.1 hqf
    rw [equationsWithin_attached hab hp hq hf hg] at h
    obtain ⟨below, hbelow, rfl⟩ := Option.map_eq_some_iff.1 h
    apply Coincide.pointers hp hq
    · exact fun e he => hsame e (List.mem_append_left below he)
    · intro f' g' hf' hg'
      obtain rfl := Option.some.inj (hf.symm.trans hf')
      obtain rfl := Option.some.inj (hg.symm.trans hg')
      exact heqs hbelow fun e he => hsame e (List.mem_append_right _ he)

theorem mixed (heqs : arena.EquatesWithin same (arena.equationsWithin n)) (hab : a ≠ b)
    (hp : arena.pointer? a = some p) (hg : arena.function? b = some g)
    (h : arena.equationsWithin (n + 1) a b = some l) (hsame : ∀ e ∈ l, same e.1 e.2) :
    arena.Coincide same a b := by
  cases hf : p.function with
  | none =>
    rw [equationsWithin_returned hab hp hg hf] at h
    exact .returned hp hf hg (heqs.cross h hsame a ((VarSet.mem_singleton a a).2 rfl))
  | some f =>
    rw [equationsWithin_pointed hab hp hg hf] at h
    exact .pointed hp hf (isFunction_iff.2 ⟨g, hg⟩) (heqs h hsame)

/-- Two functions coincide if those of their slots hold. -/
theorem functions (heqs : arena.EquatesWithin same (arena.equationsWithin n)) (hab : a ≠ b)
    (hf : arena.function? a = some f) (hg : arena.function? b = some g)
    (h : arena.equationsWithin (n + 1) a b = some l) (hsame : ∀ e ∈ l, same e.1 e.2) :
    arena.Coincide same a b := by
  by_cases hlen : f.params.length = g.params.length
  · rw [equationsWithin_functions hab hf hg hlen] at h
    obtain ⟨returns, hreturns, h⟩ := Option.bind_eq_some_iff.1 h
    obtain ⟨params, hparams, h⟩ := Option.bind_eq_some_iff.1 h
    obtain rfl := Option.some.inj h
    apply Coincide.functions hf hg
    · exact heqs.cross hreturns fun e he => hsame e (List.mem_append_left _ he)
    · exact fun _ => heqs.slots hparams fun e he => hsame e (List.mem_append_right _ he)
  · rw [equationsWithin_uneven hab hf hg hlen] at h
    exact .functions hf hg (heqs.cross h hsame) fun h' => absurd h' hlen

end EquatesWithin

/-- Variables whose equations hold coincide. -/
theorem equatesWithin (k : Nat) : arena.EquatesWithin same (arena.equationsWithin k) := by
  induction k with
  | zero => exact fun h => nomatch h
  | succ k ih =>
    intro a b l h hsame
    by_cases hab : a = b
    · exact hab ▸ .refl
    obtain ⟨ha, hb⟩ := sizes_of_equationsWithin hab h
    rcases pointer_or_function ha with ⟨p, -, hp⟩ | ⟨f, -, hf⟩
    · rcases pointer_or_function hb with ⟨q, -, hq⟩ | ⟨g, -, hg⟩
      · exact ih.pointers hab hp hq h hsame
      · exact ih.mixed hab hp hg h hsame
    · rcases pointer_or_function hb with ⟨q, -, hq⟩ | ⟨g, -, hg⟩
      · rw [equationsWithin_comm hq hf] at h
        exact .symm (ih.mixed (fun hba => hab hba.symm) hq hf h hsame)
      · exact ih.functions hab hf hg h hsame

end Arena

end CheckedPointers
