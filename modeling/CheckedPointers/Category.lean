/-!
Pointer-safety categories: a chain of four steps from pointers to one object to unchecked
pointers.
-/
namespace CheckedPointers

/-- What a pointer level may be used for, from the most to the least restrictive. -/
inductive Category where
  | ptr
  | arr
  | ntArr
  | wild
  deriving DecidableEq, Inhabited

namespace Category

/-- Steps above `ptr`; a larger rank is less safe. -/
def rank : Category → Nat
  | ptr => 0
  | arr => 1
  | ntArr => 2
  | wild => 3

instance : LE Category := ⟨fun a b => a.rank ≤ b.rank⟩
instance : LT Category := ⟨fun a b => a.rank < b.rank⟩
instance (a b : Category) : Decidable (a ≤ b) := inferInstanceAs (Decidable (a.rank ≤ b.rank))
instance (a b : Category) : Decidable (a < b) := inferInstanceAs (Decidable (a.rank < b.rank))

def mostSafe : Category := ptr

def leastSafe : Category := wild

/-- The less safe of two categories. -/
def join (a b : Category) : Category := if a ≤ b then b else a

def display : Category → String
  | ptr => "PTR"
  | arr => "ARR"
  | ntArr => "NTARR"
  | wild => "WILD"

def code : Category → String
  | ptr => "PTR"
  | arr => "ARR"
  | ntArr => "NT_ARR"
  | wild => "WILD"

def ofCode? (text : String) : Option Category :=
  [ptr, arr, ntArr, wild].find? fun c => c.code = text

theorem ofCode?_code (c : Category) : ofCode? c.code = some c := by
  cases c <;> decide

theorem le_refl (a : Category) : a ≤ a := Nat.le_refl a.rank

theorem le_trans {a b c : Category} (h₁ : a ≤ b) (h₂ : b ≤ c) : a ≤ c :=
  Nat.le_trans (m := b.rank) h₁ h₂

theorem rank_injective {a b : Category} (h : a.rank = b.rank) : a = b := by
  cases a <;> cases b <;> first | rfl | cases h

theorem le_antisymm {a b : Category} (h₁ : a ≤ b) (h₂ : b ≤ a) : a = b :=
  rank_injective (Nat.le_antisymm h₁ h₂)

theorem ptr_le (a : Category) : ptr ≤ a := Nat.zero_le a.rank

theorem le_wild (a : Category) : a ≤ wild := by cases a <;> decide

theorem join_le {a b c : Category} : join a b ≤ c ↔ a ≤ c ∧ b ≤ c := by
  cases a <;> cases b <;> cases c <;> decide

theorem le_join_left (a b : Category) : a ≤ join a b := (join_le.1 (le_refl _)).1

theorem le_join_right (a b : Category) : b ≤ join a b := (join_le.1 (le_refl _)).2

end Category

end CheckedPointers
