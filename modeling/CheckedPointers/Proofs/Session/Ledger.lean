import CheckedPointers.Proofs.Session.Below
import Mathlib.Data.List.Nodup

/-!
Who owns an atom. Every atom was given to one variable, at one level of it, and passed on to nothing
but what lies below that variable; so the levels of two pointers are apart, or those of one are the
last of the other's.
-/
namespace CheckedPointers

open Op

namespace Arena

variable {arena arena' : Arena} {v : VarId} {a : Atom}

/-- The atoms of a variable's own levels, outermost first. -/
def ownAtoms (arena : Arena) (v : VarId) : List Atom := (arena[v]?.map Variable.ownAtoms).getD []

theorem ownAtoms_of_pointer? {p : PointerVariable} (hp : arena.pointer? v = some p) :
    arena.ownAtoms v = p.atoms := by
  rw [ownAtoms, getElem?_of_pointer? hp]
  rfl

/-- A variable's own atoms are those of the pointer that it is. -/
theorem mem_ownAtoms : a ∈ arena.ownAtoms v ↔ ∃ p, arena.pointer? v = some p ∧ a ∈ p.atoms := by
  constructor
  · intro ha
    unfold ownAtoms at ha
    cases hx : arena[v]? with
    | none => simp [hx] at ha
    | some x =>
      cases x with
      | pointer p => exact ⟨p, pointer?_of_getElem? hx, by simpa [hx, Variable.ownAtoms] using ha⟩
      | function f => simp [hx, Variable.ownAtoms] at ha
  · rintro ⟨p, hp, ha⟩
    rwa [ownAtoms_of_pointer? hp]

theorem Grows.ownAtoms_eq (h : arena.Grows arena') (hv : v < arena.size) :
    arena'.ownAtoms v = arena.ownAtoms v := by rw [ownAtoms, ownAtoms, h.getElem?_eq hv]

/-- One after the other, new variables have the levels that they were made with. -/
theorem flatMap_ownAtoms_new {made : List Variable} (h : arena'.toList = arena.toList ++ made) :
    (List.range' arena.size made.length).flatMap arena'.ownAtoms =
      made.flatMap Variable.ownAtoms := by
  have hmap : (List.range' arena.size made.length).map arena'.ownAtoms =
      made.map Variable.ownAtoms := by
    apply List.ext_getElem (by simp)
    intro i hi _
    have hi : i < made.length := by simpa using hi
    have hget : arena'[arena.size + i]? = some made[i] := by
      rw [← Array.getElem?_toList, h, ← Array.length_toList,
        List.getElem?_append_right (Nat.le_add_right _ _), Nat.add_sub_cancel_left,
        List.getElem?_eq_getElem hi]
    simp [ownAtoms, hget]
  rw [List.flatMap_def, hmap, List.flatMap_def]

end Arena

namespace Session

variable {s t : Session} {v w d : VarId} {options : Options}

def Derived (s : Session) (v : VarId) : Prop := ∃ w, s.pointees.find? w = some (some v)

theorem Derived.lt (h : s.Derived v) (hs : s.WellFormed) : v < s.arena.size := by
  obtain ⟨w, hw⟩ := h
  exact Arena.lt_of_isPointer (hs.pointees _ (OrderedMap.mem_of_find? hw) v rfl)

/-- A variable is derived if it was already, or if it was made just now. -/
theorem derived_insert {made : Option VarId} (hfree : s.pointees.find? v = none)
    (heq : t.pointees = s.pointees.insert v made) :
    t.Derived d ↔ made = some d ∨ s.Derived d := by
  constructor
  · rintro ⟨w, hw⟩
    rw [heq, OrderedMap.find?_insert] at hw
    split at hw
    · exact .inl (Option.some.inj hw)
    · exact .inr ⟨w, hw⟩
  · rintro (rfl | ⟨w, hw⟩)
    · exact ⟨v, by rw [heq, OrderedMap.find?_insert, if_pos rfl]⟩
    · exact ⟨w, by rw [heq]; exact OrderedMap.find?_insert_of_free hfree hw⟩

/-- A variable that is there is derived from no later step on. -/
theorem Step.derived_iff (h : s.Step t) (hv : v < s.arena.size) : t.Derived v ↔ s.Derived v := by
  rcases h.finds_below with heq | ⟨v₀, made, hfree, heq, -, hnew⟩
  · simp only [Derived, heq]
  · rw [derived_insert hfree heq]
    refine or_iff_right fun hmade => ?_
    exact absurd (hnew v hmade) (Nat.ne_of_lt hv)

/-- The variables that are not derived, each of them once. -/
structure Roots (s : Session) (roots : List VarId) : Prop where
  nodup : roots.Nodup
  mem : ∀ v, v ∈ roots ↔ v < s.arena.size ∧ ¬ s.Derived v

/-- One after the other, the levels of the variables that are not derived hold every atom once. -/
def Balanced (s : Session) : Prop :=
  ∃ roots, s.Roots roots ∧ (roots.flatMap s.arena.ownAtoms).Perm (List.range s.solver.cells.size)

theorem flatMap_ownAtoms_old {roots : List VarId} (h : s.Roots roots) (hg : s.arena.Grows t.arena) :
    roots.flatMap t.arena.ownAtoms = roots.flatMap s.arena.ownAtoms :=
  List.flatMap_congr fun v hv => hg.ownAtoms_eq ((h.mem v).1 hv).1

/-- New variables that are not derived enter the books with their atoms. -/
theorem Balanced.stocks (h : s.Balanced) (hs : s.WellFormed) (hst : s.Stocks t)
    (hg : s.arena.Grows t.arena) (hderived : ∀ v, t.Derived v ↔ s.Derived v) : t.Balanced := by
  obtain ⟨roots, hroots, hperm⟩ := h
  obtain ⟨made, n, harena, hsize, hmade⟩ := hst
  have hlength : t.arena.size = s.arena.size + made.length := by
    rw [← Array.length_toList, harena, List.length_append, Array.length_toList]
  refine ⟨roots ++ List.range' s.arena.size made.length, ⟨?_, fun v => ?_⟩, ?_⟩
  · refine List.nodup_append.2 ⟨hroots.nodup, List.nodup_range', fun v hv w hw hvw => ?_⟩
    have hlt := ((hroots.mem v).1 hv).1
    have hle := (List.mem_range'_1.1 hw).1
    exact Nat.ne_of_lt (Nat.lt_of_lt_of_le hlt hle) hvw
  · rw [List.mem_append, hroots.mem, List.mem_range'_1, hderived, hlength]
    have hnew : s.Derived v → v < s.arena.size := fun hv => hv.lt hs
    constructor
    · rintro (⟨hlt, hv⟩ | ⟨hle, hlt⟩)
      · exact ⟨Nat.lt_of_lt_of_le hlt (Nat.le_add_right _ _), hv⟩
      · exact ⟨hlt, fun hv => absurd (hnew hv) (Nat.not_lt.2 hle)⟩
    · rintro ⟨hlt, hv⟩
      by_cases hold : v < s.arena.size
      · exact .inl ⟨hold, hv⟩
      · exact .inr ⟨Nat.not_lt.1 hold, hlt⟩
  · rw [List.flatMap_append, flatMap_ownAtoms_old hroots hg, Arena.flatMap_ownAtoms_new harena,
      hsize, List.range_eq_range', ← List.range'_append_1, ← List.range_eq_range', Nat.zero_add]
    exact hperm.append hmade

/-- What is made one dereference below a variable brings no atom of its own. -/
theorem Balanced.withPointee {q : PointerVariable} (h : s.Balanced)
    (hfree : s.pointees.find? v = none) : (s.withPointee v q).Balanced := by
  obtain ⟨roots, hroots, hperm⟩ := h
  have hderived : ∀ d, (s.withPointee v q).Derived d ↔ some s.arena.size = some d ∨ s.Derived d :=
    fun _ => derived_insert hfree rfl
  have hsize : (s.withPointee v q).arena.size = s.arena.size + 1 := Array.size_push ..
  refine ⟨roots, ⟨hroots.nodup, fun d => ?_⟩, ?_⟩
  · rw [hroots.mem, hderived, hsize, Option.some.injEq, not_or]
    constructor
    · exact fun ⟨hlt, hd⟩ => ⟨Nat.lt_succ_of_lt hlt, Nat.ne_of_gt hlt, hd⟩
    · exact fun ⟨hlt, hne, hd⟩ => ⟨Nat.lt_of_le_of_ne (Nat.le_of_lt_succ hlt) (Ne.symm hne), hd⟩
  · rw [flatMap_ownAtoms_old (t := s.withPointee v q) hroots (s.arena.grows_push _)]
    exact hperm

/-- Each step gives every new atom one place and takes none away. -/
theorem Balanced.step (h : s.Balanced) (hs : s.WellFormed) (hst : s.Step t) : t.Balanced := by
  have hg := (hst.extends hs).arena
  have hsame : t.pointees = s.pointees → ∀ v, t.Derived v ↔ s.Derived v :=
    fun heq v => by simp only [Derived, heq]
  rcases hst.looks_or_same with hlook | hstock
  · cases hlook with
    | builds hb => exact h.stocks hs hb.stocks hg (hsame (by rw [hb.only]))
    | signs => exact h.stocks hs (.of_same rfl rfl) hg (hsame rfl)
    | derives hfree => exact h.withPointee hfree
    | bottoms hfree =>
      refine h.stocks hs (.of_same rfl rfl) hg fun v => ?_
      rw [derived_insert hfree rfl]
      exact or_iff_right (by simp)
    | quotes =>
      refine h.stocks hs ⟨[.pointer _], 1, Array.toList_push .., ?_, ?_⟩ hg (hsame rfl)
      · simp [withLiteral, ConstraintSystem.fresh]
      · simp [Variable.ownAtoms]
    | guesses =>
      refine h.stocks hs ⟨[.function _], 0, Array.toList_push .., ?_, ?_⟩ hg (hsame rfl)
      · rfl
      · simp [Variable.ownAtoms]
  · exact h.stocks hs (.of_same hstock.arena hstock.size) hg (hsame hstock.pointees)

theorem balanced_new (options : Options) : (new options).Balanced :=
  ⟨[], ⟨List.nodup_nil, fun v => by simp [new]⟩, by simp [new, ConstraintSystem.empty]⟩

theorem Arises.balanced (h : Arises options s) : s.Balanced :=
  h.keeps (balanced_new options) fun _ _ hs hst hbalanced => hbalanced.step hs hst

/-! ## What the books say -/

/-- The atom `a` stands at level `i` of `v`, which is not derived. -/
def Given (s : Session) (a : Atom) (v : VarId) (i : Nat) : Prop :=
  ¬ s.Derived v ∧ ∃ p, s.arena.pointer? v = some p ∧ p.atoms[i]? = some a

theorem Given.mem {a : Atom} {i : Nat} (h : s.Given a v i) :
    ¬ s.Derived v ∧ v < s.arena.size ∧ (s.arena.ownAtoms v)[i]? = some a := by
  obtain ⟨hv, p, hp, ha⟩ := h
  exact ⟨hv, Arena.lt_of_pointer? hp, by rwa [Arena.ownAtoms_of_pointer? hp]⟩

/-- Every atom is given once. -/
theorem Balanced.given (h : s.Balanced) {a : Atom} (ha : a < s.solver.cells.size) :
    ∃ v i, s.Given a v i ∧ ∀ w j, s.Given a w j → w = v ∧ j = i := by
  obtain ⟨roots, hroots, hperm⟩ := h
  obtain ⟨hlevels, hapart⟩ := List.nodup_flatMap.1 (hperm.nodup_iff.2 List.nodup_range)
  obtain ⟨v, hv, hav⟩ := List.mem_flatMap.1 (hperm.mem_iff.2 (List.mem_range.2 ha))
  obtain ⟨i, hi⟩ := List.mem_iff_getElem?.1 hav
  obtain ⟨p, hp, -⟩ := Arena.mem_ownAtoms.1 hav
  refine ⟨v, i, ⟨((hroots.mem v).1 hv).2, p, hp, by rwa [← Arena.ownAtoms_of_pointer? hp]⟩, ?_⟩
  intro w j hw
  obtain ⟨hderived, hlt, hj⟩ := hw.mem
  have hw := (hroots.mem w).2 ⟨hlt, hderived⟩
  have heq : w = v := by
    by_contra hne
    have : Std.Symm (Function.onFun List.Disjoint s.arena.ownAtoms) :=
      ⟨fun _ _ h _ hx hy => h hy hx⟩
    exact hapart.forall hw hv hne (List.mem_of_getElem? hj) hav
  subst heq
  refine ⟨rfl, (List.getElem?_inj ?_ (hlevels w hw)).1 (hj.trans hi.symm)⟩
  exact (List.getElem?_eq_some_iff.1 hj).1

/-- The levels of a pointer are the last ones of a pointer that is not derived. -/
theorem KnowsBelow.exists_root (h : s.KnowsBelow) {p : PointerVariable}
    (hp : s.arena.pointer? v = some p) :
    ∃ r q, ¬ s.Derived r ∧ s.arena.pointer? r = some q ∧ p.atoms <:+ q.atoms := by
  induction v using Nat.strongRecOn generalizing p with
  | ind v ih =>
    by_cases hv : s.Derived v
    · -- it lies one below an older pointer, whose last levels it has
      obtain ⟨w, hw⟩ := hv
      obtain ⟨hlt, x, y, hx, hxy, hy⟩ := h.lies w _ hw
      obtain rfl := Option.some.inj (hp.symm.trans hy)
      obtain ⟨-, a, ha⟩ := PointerVariable.dereferenced?_eq_some hxy
      obtain ⟨r, q, hr, hq, hsuffix⟩ := ih w hlt hx
      exact ⟨r, q, hr, hq, (ha ▸ List.suffix_cons a p.atoms).trans hsuffix⟩
    · exact ⟨v, p, hv, hp, List.suffix_rfl⟩

/-- Two pointers have no level in common, or the levels of one are the last of the other's. -/
theorem Balanced.disjoint_or_suffix (h : s.Balanced) (hs : s.WellFormed) (hbelow : s.KnowsBelow)
    {p q : PointerVariable} (hp : s.arena.pointer? v = some p)
    (hq : s.arena.pointer? w = some q) :
    p.atoms.Disjoint q.atoms ∨ p.atoms <:+ q.atoms ∨ q.atoms <:+ p.atoms := by
  obtain ⟨r, x, hr, hx, hpx⟩ := hbelow.exists_root hp
  obtain ⟨r', y, hr', hy, hqy⟩ := hbelow.exists_root hq
  by_cases heq : r = r'
  · subst heq
    obtain rfl := Option.some.inj (hx.symm.trans hy)
    exact .inr (List.suffix_or_suffix_of_suffix hpx hqy)
  · refine .inl fun a hap haq => heq ?_
    obtain ⟨i, hi⟩ := List.mem_iff_getElem?.1 (hpx.subset hap)
    obtain ⟨j, hj⟩ := List.mem_iff_getElem?.1 (hqy.subset haq)
    have ha : a < s.solver.cells.size := hs.arena.atom_lt hp hap
    obtain ⟨v₀, i₀, -, honly⟩ := h.given ha
    exact (honly r i ⟨hr, x, hx, hi⟩).1.trans (honly r' j ⟨hr', y, hy, hj⟩).1.symm

end Session

end CheckedPointers
