/-!
Finite sets of constraint variables, kept in ascending order of creation.
-/
namespace CheckedPointers

/-- A constraint variable, named by its position in the arena. -/
abbrev VarId := Nat

structure VarSet where
  members : List VarId
  deriving DecidableEq

namespace VarSet

instance : Membership VarId VarSet := ⟨fun s v => v ∈ s.members⟩

instance (v : VarId) (s : VarSet) : Decidable (v ∈ s) := inferInstanceAs (Decidable (v ∈ s.members))

def empty : VarSet := ⟨[]⟩

def singleton (v : VarId) : VarSet := ⟨[v]⟩

def insertMember (v : VarId) : List VarId → List VarId
  | [] => [v]
  | w :: rest =>
    if v < w then v :: w :: rest
    else if v = w then w :: rest
    else w :: insertMember v rest

def insert (s : VarSet) (v : VarId) : VarSet := ⟨insertMember v s.members⟩

def insertAll (s : VarSet) (vs : List VarId) : VarSet := vs.foldl insert s

def union (s t : VarSet) : VarSet := s.insertAll t.members

def ofList (vs : List VarId) : VarSet := empty.insertAll vs

def isEmpty (s : VarSet) : Bool := s.members.isEmpty

def size (s : VarSet) : Nat := s.members.length

theorem mem_insertMember (v w : VarId) (l : List VarId) :
    w ∈ insertMember v l ↔ w = v ∨ w ∈ l := by
  induction l with
  | nil => simp [insertMember]
  | cons x rest ih => grind [insertMember]

@[simp] theorem not_mem_empty (v : VarId) : v ∉ empty := List.not_mem_nil

@[simp] theorem mem_singleton (v w : VarId) : w ∈ singleton v ↔ w = v := List.mem_singleton

@[simp] theorem mem_insert (s : VarSet) (v w : VarId) : w ∈ s.insert v ↔ w = v ∨ w ∈ s :=
  mem_insertMember v w s.members

theorem mem_insertAll (s : VarSet) (vs : List VarId) (w : VarId) :
    w ∈ s.insertAll vs ↔ w ∈ vs ∨ w ∈ s := by
  induction vs generalizing s with
  | nil => simp [insertAll]
  | cons v vs ih =>
    have h := ih (s.insert v)
    simp only [insertAll, List.foldl_cons] at h ⊢
    rw [h, mem_insert, List.mem_cons]
    grind

@[simp] theorem mem_ofList (vs : List VarId) (w : VarId) : w ∈ ofList vs ↔ w ∈ vs := by
  simp [ofList, mem_insertAll]

@[simp] theorem mem_union (s t : VarSet) (w : VarId) : w ∈ s.union t ↔ w ∈ t ∨ w ∈ s :=
  mem_insertAll s t.members w

end VarSet

end CheckedPointers
