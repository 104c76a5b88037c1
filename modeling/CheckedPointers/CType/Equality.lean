import CheckedPointers.CType.Basic

/-!
Equality of types: identity, and the structural comparison that looks through typedefs, leaves
out unknown array sizes and stops at a fixed nesting.
-/
namespace CheckedPointers

namespace CType

mutual

def same : CType → CType → Bool
  | builtin m, builtin n => m = n
  | pointer s, pointer t => s.same t
  | array s m, array t n => s.same t && m = n
  | function r ps v p, function s qs w q => r.same s && sameAll ps qs && v = w && p = q
  | record m, record n => m = n
  | typedef m s, typedef n t => m = n && s.same t
  | _, _ => false

def sameAll : List CType → List CType → Bool
  | [], [] => true
  | s :: ss, t :: ts => s.same t && sameAll ss ts
  | _, _ => false

end

mutual

/-- The comparison by recursion decides equality of types. -/
theorem same_iff (s t : CType) : s.same t = true ↔ s = t := by
  match s, t with
  | builtin m, t => cases t <;> simp [same]
  | pointer s, t =>
    cases t with
    | pointer t => simp [same, same_iff s t]
    | _ => simp [same]
  | array s m, t =>
    cases t with
    | array t n => simp [same, same_iff s t]
    | _ => simp [same]
  | function r ps v p, t =>
    cases t with
    | function s qs w q => simp [same, same_iff r s, sameAll_iff ps qs, and_assoc]
    | _ => simp [same]
  | record m, t => cases t <;> simp [same]
  | typedef m s, t =>
    cases t with
    | typedef n t => simp [same, same_iff s t]
    | _ => simp [same]

theorem sameAll_iff (ss ts : List CType) : sameAll ss ts = true ↔ ss = ts := by
  match ss, ts with
  | [], ts => cases ts <;> simp [sameAll]
  | s :: ss, ts =>
    cases ts with
    | nil => simp [sameAll]
    | cons t ts => simp [sameAll, same_iff s t, sameAll_iff ss ts]

end

instance : DecidableEq CType := fun s t => decidable_of_iff _ (same_iff s t)

/-- Nested pointers, arrays and functions are compared this deep. -/
def comparisonLimit : Nat := 128

/-- Structural equality within `n` further levels. Past them the answer is `false`, which says
only that the types were not shown equal. -/
def alikeWithin : Nat → CType → CType → Bool
  | 0, _, _ => false
  | n + 1, s, t =>
    s = t ||
      match s.unaliased, t.unaliased with
      | builtin x, builtin y => x = y
      | record x, record y => x = y
      | pointer s, pointer t => alikeWithin n s t
      | array s x, array t y => (x.isNone || y.isNone || x = y) && alikeWithin n s t
      | function r ps v _, function s qs w _ =>
        v = w && ps.length = qs.length && alikeWithin n r s &&
          (ps.zip qs).all fun p => alikeWithin n p.1 p.2
      | _, _ => false

/-- Whether two types are the same once typedefs, prototypes and unknown array sizes are left out
of account. -/
def alike (s t : CType) : Bool := alikeWithin (comparisonLimit + 1) s t

end CType

instance : DecidableEq Signature := fun a b =>
  decidable_of_iff (a.toType = b.toType) <| by
    cases a; cases b; simp [Signature.toType]

end CheckedPointers
