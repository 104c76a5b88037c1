import CheckedPointers.Proofs.CType.Erasure
import Mathlib.Data.List.Forall2
import Mathlib.Data.List.Zip
import Mathlib.Logic.Function.Iterate

/-!
What a comparison of types decides. Types that are found alike are compatible, however deep they
nest; types that are compatible are found alike if they are compared to their ends.
-/
namespace CheckedPointers

namespace CType

/-- Types without typedefs that are the same but for prototypes, and for the sizes of arrays of
which one is unknown. -/
inductive Compatible : CType → CType → Prop where
  | builtin (name : String) : Compatible (builtin name) (builtin name)
  | record (name : String) : Compatible (record name) (record name)
  | pointer {s t : CType} (inner : Compatible s t) : Compatible (pointer s) (pointer t)
  | array {s t : CType} {x y : Option Nat} (elem : Compatible s t)
      (sizes : ∀ m n, x = some m → y = some n → m = n) : Compatible (array s x) (array t y)
  | function {r r' : CType} {ps qs : List CType} {v p q : Bool} (ret : Compatible r r')
      (params : List.Forall₂ Compatible ps qs) :
      Compatible (function r ps v p) (function r' qs v q)

variable {s t s' t' : CType} {n : Nat}

/-- Sizes are compared where both are known. -/
theorem sizes_agree_iff {x y : Option Nat} :
    (x.isNone || y.isNone || decide (x = y)) = true ↔
      ∀ m n, x = some m → y = some n → m = n := by
  cases x <;> cases y <;> simp

mutual

/-- A type without typedefs is compatible with itself. -/
theorem compatible_erased_self (ty : CType) : Compatible ty.erased ty.erased := by
  match ty with
  | builtin name => exact .builtin name
  | record name => exact .record name
  | pointer inner => exact .pointer (compatible_erased_self inner)
  | array elem size =>
    refine .array (compatible_erased_self elem) fun m n hm hn => ?_
    exact Option.some.inj (hm.symm.trans hn)
  | typedef _ underlying => exact compatible_erased_self underlying
  | function ret params _ _ =>
    exact .function (compatible_erased_self ret) (compatible_erasedAll_self params)

theorem compatible_erasedAll_self (tys : List CType) :
    List.Forall₂ Compatible (erasedAll tys) (erasedAll tys) := by
  match tys with
  | [] => exact .nil
  | ty :: rest => exact .cons (compatible_erased_self ty) (compatible_erasedAll_self rest)

end

/-- Types that are found alike are compatible, at whatever depth the comparison stopped. -/
theorem compatible_of_alikeWithin (h : alikeWithin n s t = true) :
    Compatible s.erased t.erased := by
  induction n generalizing s t with
  | zero => cases h
  | succ n ih =>
    rw [alikeWithin_succ, Bool.or_eq_true, decide_eq_true_eq] at h
    rcases h with rfl | h
    · exact compatible_erased_self s
    rw [← erased_unaliased s, ← erased_unaliased t]
    unfold alikeBelow at h
    split at h
    · next hs ht =>
      rw [hs, ht, of_decide_eq_true h]
      exact .builtin _
    · next hs ht =>
      rw [hs, ht, of_decide_eq_true h]
      exact .record _
    · next hs ht =>
      rw [hs, ht]
      exact .pointer (ih h)
    · next hs ht =>
      rw [Bool.and_eq_true, sizes_agree_iff] at h
      rw [hs, ht]
      exact .array (ih h.2) h.1
    · next hs ht =>
      simp only [Bool.and_eq_true, decide_eq_true_eq, List.all_eq_true] at h
      obtain ⟨⟨⟨rfl, hlen⟩, hret⟩, hparams⟩ := h
      rw [hs, ht, erased, erased, erasedAll_eq_map, erasedAll_eq_map]
      refine .function (ih hret) ?_
      rw [List.forall₂_map_left_iff, List.forall₂_map_right_iff, List.forall₂_iff_zip]
      exact ⟨hlen, fun hpair => ih (hparams _ hpair)⟩
    · cases h

/-- Compatible types are found alike if levels are left for all parts of one of them. -/
theorem Compatible.alikeWithin (h : Compatible s t) (hn : s.nesting < n ∨ t.nesting < n) :
    alikeWithin n s t = true := by
  induction n generalizing s t with
  | zero => omega
  | succ n ih =>
    rw [alikeWithin_succ, Bool.or_eq_true]
    cases h with
    | builtin name | record name => exact .inl (decide_eq_true rfl)
    | pointer inner =>
      rw [nesting, nesting] at hn
      exact .inr (ih inner (by omega))
    | array elem sizes =>
      rw [nesting, nesting] at hn
      exact .inr (Bool.and_eq_true_iff.2 ⟨sizes_agree_iff.2 sizes, ih elem (by omega)⟩)
    | @function r r' ps qs v _ _ ret params =>
      rw [nesting, nesting] at hn
      obtain ⟨hlen, hpairs⟩ := List.forall₂_iff_zip.1 params
      have hall : ∀ e ∈ ps.zip qs, CType.alikeWithin n e.1 e.2 = true := by
        rintro ⟨a, b⟩ he
        have hps : a.nesting ≤ nestingAll ps := nesting_le_nestingAll (List.of_mem_zip he).1
        have hqs : b.nesting ≤ nestingAll qs := nesting_le_nestingAll (List.of_mem_zip he).2
        have hdeep : a.nesting < n ∨ b.nesting < n := by omega
        exact ih (hpairs he) hdeep
      refine .inr ?_
      simp only [alikeBelow, unaliased, Bool.and_eq_true, decide_eq_true_eq, List.all_eq_true]
      exact ⟨⟨⟨trivial, hlen⟩, ih ret (by omega)⟩, hall⟩

/-- Comparisons by one test, pair by pair, come to the same in either order of the lists. -/
theorem all_zip_comm {f : CType → CType → Bool} (hf : ∀ s t, f s t = f t s) (ss ts : List CType) :
    ((ss.zip ts).all fun e => f e.1 e.2) = (ts.zip ss).all fun e => f e.1 e.2 := by
  rw [← List.zip_swap ts ss, List.all_map]
  exact congrArg (fun g => (ts.zip ss).all g) (funext fun e => hf e.2 e.1)

/-- The comparison does not depend on the order of the two types. -/
theorem alikeWithin_comm (n : Nat) (s t : CType) : alikeWithin n s t = alikeWithin n t s := by
  induction n generalizing s t with
  | zero => rfl
  | succ n ih =>
    have hbelow : alikeBelow n s t = alikeBelow n t s := by
      rw [alikeBelow, alikeBelow]
      cases hs : s.unaliased with
      | function r ps v p =>
        cases ht : t.unaliased with
        | function r' qs w q =>
          simp only [ih r r', all_zip_comm ih ps qs, eq_comm (a := v), eq_comm (a := ps.length)]
        | _ => rfl
      | array s x =>
        cases ht : t.unaliased with
        | array t y => simp only [ih s t, Bool.or_comm x.isNone, eq_comm (a := x)]
        | _ => rfl
      | pointer s =>
        cases ht : t.unaliased with
        | pointer t => exact ih s t
        | _ => rfl
      | builtin m | record m => cases ht : t.unaliased <;> simp only [eq_comm]
      | typedef name ty => exact absurd hs (unaliased_ne_typedef s name ty)
    rw [alikeWithin_succ, alikeWithin_succ, hbelow, decide_eq_decide.2 (eq_comm (a := s))]

/-- Types found alike are the same but for typedefs, prototypes and unknown array sizes, however
deep they nest. Types that are so are found alike if one of them is compared to its end, and then it
does not matter how the two are spelled. Their order never matters. -/
theorem alike_decides (s t : CType) :
    (alike s t → Compatible s.erased t.erased) ∧ alike s t = alike t s ∧
      (s.nesting ≤ comparisonLimit ∨ t.nesting ≤ comparisonLimit →
        (Compatible s.erased t.erased → alike s t) ∧
          ∀ s' t' : CType, s'.erased = s.erased → t'.erased = t.erased →
            alike s' t' = alike s t) := by
  refine ⟨compatible_of_alikeWithin, alikeWithin_comm _ s t, fun hlimit => ?_⟩
  have hlimit := hlimit.imp Nat.lt_succ_of_le Nat.lt_succ_of_le
  constructor
  · intro h
    rw [alike, alikeWithin_erased hlimit]
    exact h.alikeWithin (by rwa [nesting_erased, nesting_erased])
  · intro s' t' hs ht
    have hlimit' : s'.nesting < comparisonLimit + 1 ∨ t'.nesting < comparisonLimit + 1 := by
      rwa [nesting_eq hs, nesting_eq ht]
    rw [alike, alike, alikeWithin_erased hlimit', hs, ht, alikeWithin_erased hlimit]

/-- A function that takes a list of unknown length by an alias, without prototype, and one that
takes a list of three. -/
theorem alike_decides_aliasedParameter :
    let num : CType := typedef "num" .int
    let list : CType := typedef "list" (.array num none)
    let s : CType := .pointer (.function (.builtin "void") [list] false false)
    let t : CType := .pointer (.function (.builtin "void") [.array .int (some 3)] false true)
    s.nesting ≤ comparisonLimit ∧ alike s t ∧ Compatible s.erased t.erased ∧
      alike s.erased t = alike s t := by
  intro num list s t
  have hnesting : s.nesting ≤ comparisonLimit := by decide
  obtain ⟨hsound, -, hdeep⟩ := alike_decides s t
  have halike : alike s t := by decide +kernel
  exact ⟨hnesting, halike, hsound halike,
    (hdeep (.inl hnesting)).2 s.erased t (erased_erased s) rfl⟩

/-- A comparison with no more levels than there are pointers around two types does not get to
see whether they are spelled differently only. -/
theorem alikeWithin_pointers (hst : s ≠ t) {k : Nat} (hk : k ≤ n) :
    alikeWithin k (pointer^[n] s) (pointer^[n] t) = false := by
  induction k generalizing n with
  | zero => rfl
  | succ k ih =>
    obtain ⟨n, rfl⟩ := Nat.exists_eq_add_of_lt hk
    have hne : pointer^[k + n + 1] s ≠ pointer^[k + n + 1] t :=
      (Function.Injective.iterate (fun _ _ => pointer.inj) _).ne hst
    rw [alikeWithin_succ, decide_eq_false hne, Bool.false_or, Function.iterate_succ_apply',
      Function.iterate_succ_apply']
    exact ih (by omega)

theorem nesting_pointers (n : Nat) (ty : CType) : (pointer^[n] ty).nesting = ty.nesting + n := by
  induction n with
  | zero => rfl
  | succ n ih => rw [Function.iterate_succ_apply', nesting, ih, Nat.add_assoc]

theorem erased_pointers (n : Nat) (ty : CType) :
    (pointer^[n] ty).erased = pointer^[n] ty.erased := by
  induction n with
  | zero => rfl
  | succ n ih => rw [Function.iterate_succ_apply', Function.iterate_succ_apply', erased, ih]

/-- The limit is sharp: at every depth beyond it there are types that are not found alike, though
they differ in a typedef only. -/
theorem alike_cut_off (hn : comparisonLimit < n) :
    ∃ s t : CType, s.nesting = n ∧ s.erased = t.erased ∧ alike s t = false := by
  refine ⟨pointer^[n] .int, pointer^[n] <| typedef "num" .int, ?_, ?_, ?_⟩
  · exact (nesting_pointers n _).trans (Nat.zero_add n)
  · rw [erased_pointers, erased_pointers, erased]
  · exact alikeWithin_pointers (by decide) hn

end CType

end CheckedPointers
