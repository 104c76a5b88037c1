import CheckedPointers.CType.Equality
import Mathlib.Logic.Basic

/-!
Types without typedefs. Replacing every typedef by what it stands for changes neither the shape of
a type nor the outcome of a comparison, as long as one of the two types is not nested too deeply to
be compared to its end.
-/
namespace CheckedPointers

namespace CType

mutual

/-- The type with every typedef replaced by what it stands for. -/
def erased : CType → CType
  | builtin name => builtin name
  | pointer inner => pointer inner.erased
  | array elem size => array elem.erased size
  | function ret params variadic hasPrototype =>
    function ret.erased (erasedAll params) variadic hasPrototype
  | record name => record name
  | typedef _ underlying => underlying.erased

def erasedAll : List CType → List CType
  | [] => []
  | ty :: rest => ty.erased :: erasedAll rest

end

mutual

/-- How deep pointers, arrays and functions nest. Typedefs do not count. -/
def nesting : CType → Nat
  | pointer inner => inner.nesting + 1
  | array elem _ => elem.nesting + 1
  | function ret params _ _ => max ret.nesting (nestingAll params) + 1
  | typedef _ underlying => underlying.nesting
  | builtin _ | record _ => 0

def nestingAll : List CType → Nat
  | [] => 0
  | ty :: rest => max ty.nesting (nestingAll rest)

end

variable {s t s' t' : CType} {n : Nat}

theorem erasedAll_eq_map (tys : List CType) : erasedAll tys = tys.map erased := by
  induction tys with
  | nil => rfl
  | cons ty rest ih => simp [erasedAll, ih]

theorem nesting_le_nestingAll {tys : List CType} (h : t ∈ tys) : t.nesting ≤ nestingAll tys := by
  induction tys with
  | nil => cases h
  | cons ty rest ih =>
    rcases List.mem_cons.1 h with rfl | h
    · exact Nat.le_max_left _ _
    · exact Nat.le_trans (ih h) (Nat.le_max_right _ _)

/-! ## What erasing keeps -/

theorem unaliased_ne_typedef (ty : CType) (name : String) (underlying : CType) :
    ty.unaliased ≠ typedef name underlying := by
  induction ty using unaliased.induct with
  | case1 _ ty ih => exact ih
  | case2 ty h =>
    rw [unaliased.eq_def]
    cases ty with
    | typedef name underlying => exact absurd rfl (h name underlying)
    | _ => simp

@[simp] theorem erased_unaliased (ty : CType) : ty.unaliased.erased = ty.erased := by
  induction ty using unaliased.induct with
  | case1 name ty ih => simpa only [unaliased, erased] using ih
  | case2 ty h => cases ty <;> simp_all [unaliased]

@[simp] theorem unaliased_erased (ty : CType) : ty.erased.unaliased = ty.erased := by
  induction ty using unaliased.induct with
  | case1 name ty ih => simpa only [erased] using ih
  | case2 ty h => cases ty <;> simp_all [unaliased, erased]

@[simp] theorem nesting_unaliased (ty : CType) : ty.unaliased.nesting = ty.nesting := by
  induction ty using unaliased.induct with
  | case1 name ty ih => simpa only [unaliased, nesting] using ih
  | case2 ty h => cases ty <;> simp_all [unaliased]

mutual

@[simp] theorem nesting_erased (ty : CType) : ty.erased.nesting = ty.nesting := by
  match ty with
  | builtin _ | record _ => rfl
  | pointer inner => simp only [erased, nesting, nesting_erased inner]
  | array elem _ => simp only [erased, nesting, nesting_erased elem]
  | typedef _ underlying => simp only [erased, nesting, nesting_erased underlying]
  | function ret params _ _ =>
    simp only [erased, nesting, nesting_erased ret, nestingAll_erasedAll params]

theorem nestingAll_erasedAll (tys : List CType) : nestingAll (erasedAll tys) = nestingAll tys := by
  match tys with
  | [] => rfl
  | ty :: rest =>
    simp only [erasedAll, nestingAll, nesting_erased ty, nestingAll_erasedAll rest]

end

mutual

/-- Nothing is left to erase in an erased type. -/
@[simp] theorem erased_erased (ty : CType) : ty.erased.erased = ty.erased := by
  match ty with
  | builtin _ | record _ => rfl
  | pointer inner => simp only [erased, erased_erased inner]
  | array elem _ => simp only [erased, erased_erased elem]
  | typedef _ underlying => simp only [erased, erased_erased underlying]
  | function ret params _ _ =>
    simp only [erased, erased_erased ret, erasedAll_erasedAll params]

theorem erasedAll_erasedAll (tys : List CType) : erasedAll (erasedAll tys) = erasedAll tys := by
  match tys with
  | [] => rfl
  | ty :: rest => simp only [erasedAll, erased_erased ty, erasedAll_erasedAll rest]

end

@[simp] theorem depth_erased (ty : CType) : ty.erased.depth = ty.depth := by
  match ty with
  | builtin _ | record _ | function .. => rfl
  | pointer inner => simp only [erased, depth, depth_erased inner]
  | array elem _ => simp only [erased, depth, depth_erased elem]
  | typedef _ underlying => simp only [erased, depth, depth_erased underlying]

theorem depth_eq (h : s.erased = t.erased) : s.depth = t.depth := by
  rw [← depth_erased s, h, depth_erased]

/-- How deep a type nests is seen without its typedefs. -/
theorem nesting_eq (h : s.erased = t.erased) : s.nesting = t.nesting := by
  rw [← nesting_erased s, h, nesting_erased]

theorem isPointer_eq (h : s.erased = t.erased) : s.isPointer = t.isPointer := by
  rw [← erased_unaliased s, ← erased_unaliased t] at h
  rw [isPointer, isPointer]
  cases hs : s.unaliased <;> cases ht : t.unaliased <;> simp_all [erased, unaliased_ne_typedef]

theorem isArray_eq (h : s.erased = t.erased) : s.isArray = t.isArray := by
  rw [← erased_unaliased s, ← erased_unaliased t] at h
  rw [isArray, isArray]
  cases hs : s.unaliased <;> cases ht : t.unaliased <;> simp_all [erased, unaliased_ne_typedef]

theorem isFunction_eq (h : s.erased = t.erased) : s.isFunction = t.isFunction := by
  rw [← erased_unaliased s, ← erased_unaliased t] at h
  rw [isFunction, isFunction]
  cases hs : s.unaliased <;> cases ht : t.unaliased <;> simp_all [erased, unaliased_ne_typedef]

/-- Below its aliases a type is built like any type that is the same without typedefs. -/
theorem unaliased_pointer (h : t.erased = pointer s) : ∃ t', t.unaliased = pointer t' ∧ t'.erased = s := by
  rw [← erased_unaliased] at h
  cases ht : t.unaliased <;> simp_all [erased, unaliased_ne_typedef]

theorem unaliased_array {size : Option Nat} (h : t.erased = array s size) :
    ∃ t', t.unaliased = array t' size ∧ t'.erased = s := by
  rw [← erased_unaliased] at h
  cases ht : t.unaliased <;> simp_all [erased, unaliased_ne_typedef]

/-- A function type without typedefs comes of a function type whose parts erase to its parts. -/
theorem unaliased_function {ps : List CType} {v p : Bool} (h : t.erased = function s ps v p) :
    ∃ t' ps', t.unaliased = function t' ps' v p ∧ t'.erased = s ∧ erasedAll ps' = ps := by
  rw [← erased_unaliased] at h
  cases ht : t.unaliased with
  | function t' ps' v' p' =>
    rw [ht, erased, function.injEq] at h
    obtain ⟨hret, hparams, rfl, rfl⟩ := h
    exact ⟨t', ps', rfl, hret, hparams⟩
  | _ => simp_all [erased, unaliased_ne_typedef]

/-! ## Comparisons -/

/-- Structural equality of two types that need not be the same, with `n` levels left for their
parts. -/
def alikeBelow (n : Nat) (s t : CType) : Bool :=
  match s.unaliased, t.unaliased with
  | builtin x, builtin y => x = y
  | record x, record y => x = y
  | pointer s, pointer t => alikeWithin n s t
  | array s x, array t y => (x.isNone || y.isNone || x = y) && alikeWithin n s t
  | function r ps v _, function s qs w _ =>
    v = w && ps.length = qs.length && alikeWithin n r s &&
      (ps.zip qs).all fun p => alikeWithin n p.1 p.2
  | _, _ => false

/-- One level of the comparison: the types are equal, or their parts are alike with a level less. -/
theorem alikeWithin_succ (n : Nat) (s t : CType) :
    alikeWithin (n + 1) s t = (s = t || alikeBelow n s t) := rfl

theorem alikeWithin_self (hn : 0 < n) (s : CType) : alikeWithin n s s = true := by
  obtain ⟨m, rfl⟩ := Nat.exists_eq_add_one_of_ne_zero (Nat.ne_of_gt hn)
  simp [alikeWithin_succ]

/-- With levels left for all its parts a type is found equal to itself part by part. -/
theorem alikeBelow_self (h : s.nesting ≤ n) : alikeBelow n s s = true := by
  rw [← nesting_unaliased] at h
  rw [alikeBelow]
  cases hs : s.unaliased with
  | builtin _ | record _ => simp
  | typedef _ _ => exact absurd hs (unaliased_ne_typedef s _ _)
  | pointer t =>
    rw [hs, nesting] at h
    exact alikeWithin_self (by omega) t
  | array t x =>
    rw [hs, nesting] at h
    simp [alikeWithin_self (by omega : 0 < n) t]
  | function r ps v p =>
    rw [hs, nesting] at h
    have hn : 0 < n := by omega
    have hself : ∀ p ∈ ps.zip ps, alikeWithin n p.1 p.2 = true := by
      rw [List.zip_eq_zipWith, List.zipWith_self]
      intro p hp
      obtain ⟨q, -, rfl⟩ := List.mem_map.1 hp
      exact alikeWithin_self hn q
    simp only [alikeWithin_self hn r, decide_true, Bool.true_and, List.all_eq_true]
    exact hself

theorem alikeWithin_eq_below (h : s.nesting ≤ n ∨ t.nesting ≤ n) :
    alikeWithin (n + 1) s t = alikeBelow n s t := by
  rw [alikeWithin_succ]
  by_cases hst : s = t
  · subst hst
    simp [alikeBelow_self (h.elim id id)]
  · simp [hst]

/-- Typedefs do not count in a comparison that comes to its end. -/
theorem alikeWithin_erased (h : s.nesting < n ∨ t.nesting < n) :
    alikeWithin n s t = alikeWithin n s.erased t.erased := by
  induction n generalizing s t with
  | zero => omega
  | succ n ih =>
    rw [alikeWithin_eq_below (by omega), alikeWithin_eq_below (by simp; omega), alikeBelow,
      alikeBelow, unaliased_erased, unaliased_erased, ← erased_unaliased s, ← erased_unaliased t]
    rw [← nesting_unaliased s, ← nesting_unaliased t] at h
    cases hs : s.unaliased with
    | typedef _ _ => exact absurd hs (unaliased_ne_typedef s _ _)
    | builtin _ | record _ =>
      cases ht : t.unaliased with
      | typedef _ _ => exact absurd ht (unaliased_ne_typedef t _ _)
      | _ => simp [erased]
    | pointer a =>
      cases ht : t.unaliased with
      | typedef _ _ => exact absurd ht (unaliased_ne_typedef t _ _)
      | pointer b =>
        rw [hs, ht, nesting, nesting] at h
        exact ih (by omega)
      | _ => simp [erased]
    | array a x =>
      cases ht : t.unaliased with
      | typedef _ _ => exact absurd ht (unaliased_ne_typedef t _ _)
      | array b y =>
        rw [hs, ht, nesting, nesting] at h
        simp only [erased, ih (s := a) (t := b) (by omega)]
      | _ => simp [erased]
    | function r ps v p =>
      cases ht : t.unaliased with
      | typedef _ _ => exact absurd ht (unaliased_ne_typedef t _ _)
      | function r' qs w q =>
        simp only [hs, ht, nesting] at h
        have hparams : ∀ e ∈ ps.zip qs,
            alikeWithin n e.1 e.2 = alikeWithin n e.1.erased e.2.erased := by
          rintro ⟨a, b⟩ he
          obtain ⟨ha, hb⟩ := List.of_mem_zip he
          have := nesting_le_nestingAll ha
          have := nesting_le_nestingAll hb
          exact ih (s := a) (t := b) (by omega)
        have hall : ((ps.zip qs).all fun e => alikeWithin n e.1 e.2) =
            (ps.zip qs).all fun e => alikeWithin n e.1.erased e.2.erased := by
          rw [Bool.eq_iff_iff, List.all_eq_true, List.all_eq_true]
          exact forall₂_congr fun e he => by rw [hparams e he]
        have hret : alikeWithin n r r' = alikeWithin n r.erased r'.erased := ih (by omega)
        simp only [erased, erasedAll_eq_map, List.length_map, hret, hall, List.zip_map,
          List.all_map]
        rfl
      | _ => simp [erased]

/-! ## Types spelled otherwise -/

/-- The types are the same without typedefs; and if they are not the same with them, they are not
nested too deeply to be compared to their end. -/
structure Rewords (s t : CType) : Prop where
  erased : s.erased = t.erased
  nesting : s = t ∨ s.nesting ≤ comparisonLimit

theorem Rewords.refl (s : CType) : s.Rewords s := ⟨rfl, .inl rfl⟩

/-- A type may be spelled without typedefs. -/
theorem Rewords.to_erased (h : s.nesting ≤ comparisonLimit) : s.Rewords s.erased :=
  ⟨(erased_erased s).symm, .inr h⟩

/-- Comparisons do not depend on the spelling. -/
theorem Rewords.alike_eq (hs : s.Rewords s') (ht : t.Rewords t') : alike s t = alike s' t' := by
  have hlimit : (s = s' ∧ t = t') ∨ s.nesting < comparisonLimit + 1 ∨
      t.nesting < comparisonLimit + 1 := by
    rcases hs.nesting with rfl | hs
    · exact ht.nesting.imp (fun ht => ⟨rfl, ht⟩) fun ht => .inr (Nat.lt_succ_of_le ht)
    · exact .inr (.inl (Nat.lt_succ_of_le hs))
  rcases hlimit with ⟨rfl, rfl⟩ | hlimit
  · rfl
  · rw [alike, alike, alikeWithin_erased hlimit, hs.erased, ht.erased, ← alikeWithin_erased]
    rwa [← nesting_eq hs.erased, ← nesting_eq ht.erased]

end CType

end CheckedPointers
