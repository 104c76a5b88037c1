/-!
Finite maps kept in ascending key order. Reading a map is described by `find?`; what an insertion
does to it is `find?_insert`.
-/
namespace CheckedPointers

structure OrderedMap (κ α : Type) where
  entries : List (κ × α)

namespace OrderedMap

variable {κ α : Type} [DecidableEq κ]

def empty : OrderedMap κ α := ⟨[]⟩

def findEntry (k : κ) : List (κ × α) → Option α
  | [] => none
  | (k', v) :: rest => if k = k' then some v else findEntry k rest

def find? (m : OrderedMap κ α) (k : κ) : Option α := findEntry k m.entries

def contains (m : OrderedMap κ α) (k : κ) : Bool := (m.find? k).isSome

def keys (m : OrderedMap κ α) : List κ := m.entries.map (·.1)

def values (m : OrderedMap κ α) : List α := m.entries.map (·.2)

@[simp] theorem find?_empty (k : κ) : (empty : OrderedMap κ α).find? k = none := rfl

theorem mem_of_findEntry {k : κ} {v : α} {l : List (κ × α)} (h : findEntry k l = some v) :
    (k, v) ∈ l := by
  induction l with
  | nil => cases h
  | cons e rest ih =>
    obtain ⟨k', v'⟩ := e
    simp only [findEntry] at h
    split at h
    · next he =>
      cases h
      exact he ▸ List.mem_cons_self
    · exact List.mem_cons_of_mem _ (ih h)

theorem mem_of_find? {m : OrderedMap κ α} {k : κ} {v : α} (h : m.find? k = some v) :
    (k, v) ∈ m.entries := mem_of_findEntry h

/-- Where there is an entry something is found. -/
theorem exists_find? {m : OrderedMap κ α} {e : κ × α} (h : e ∈ m.entries) :
    ∃ v, m.find? e.1 = some v := by
  obtain ⟨l⟩ := m
  simp only [find?] at h ⊢
  induction l with
  | nil => cases h
  | cons e' rest ih =>
    by_cases hk : e.1 = e'.1
    · exact ⟨e'.2, if_pos hk⟩
    · obtain rfl | h := List.mem_cons.1 h
      · exact absurd rfl hk
      · obtain ⟨v, hv⟩ := ih h
        exact ⟨v, (if_neg hk).trans hv⟩

variable [Ord κ]

/-- Replaces the entry of `k`, or puts a new one before the first larger key. -/
def insertEntry (k : κ) (v : α) : List (κ × α) → List (κ × α)
  | [] => [(k, v)]
  | (k', v') :: rest =>
    if k = k' then (k, v) :: rest
    else if compare k k' = .lt then (k, v) :: (k', v') :: rest
    else (k', v') :: insertEntry k v rest

def insert (m : OrderedMap κ α) (k : κ) (v : α) : OrderedMap κ α := ⟨insertEntry k v m.entries⟩

/-- An insertion is read back at its own key and changes nothing at any other. -/
theorem findEntry_insertEntry (k k₀ : κ) (v : α) (l : List (κ × α)) :
    findEntry k₀ (insertEntry k v l) = if k₀ = k then some v else findEntry k₀ l := by
  induction l with
  | nil => simp [insertEntry, findEntry]
  | cons e rest ih =>
    obtain ⟨k', v'⟩ := e
    simp only [insertEntry]
    by_cases h₁ : k = k'
    · subst h₁
      by_cases h₀ : k₀ = k <;> simp [findEntry, h₀]
    · by_cases h₂ : compare k k' = .lt
      · by_cases h₀ : k₀ = k <;> simp [findEntry, h₀, h₁, h₂]
      · simp only [h₁, h₂, if_false, findEntry, ih]
        by_cases h₀ : k₀ = k
        · subst h₀; simp [h₁]
        · simp [h₀]

theorem find?_insert (m : OrderedMap κ α) (k k₀ : κ) (v : α) :
    (m.insert k v).find? k₀ = if k₀ = k then some v else m.find? k₀ :=
  findEntry_insertEntry k k₀ v m.entries

/-- What is found stays found when a new key is inserted. -/
theorem find?_insert_of_free {m : OrderedMap κ α} {k k₀ : κ} {v v₀ : α} (hfree : m.find? k = none)
    (h : m.find? k₀ = some v₀) : (m.insert k v).find? k₀ = some v₀ := by
  rw [find?_insert, if_neg, h]
  rintro rfl
  rw [hfree] at h
  cases h

theorem mem_insertEntry {k : κ} {v : α} {l : List (κ × α)} {e : κ × α}
    (h : e ∈ insertEntry k v l) : e = (k, v) ∨ e ∈ l := by
  induction l with
  | nil => exact .inl (List.mem_singleton.1 h)
  | cons e' rest ih => grind [insertEntry]

/-- What stands in a map after an insertion stood there before, or is what was inserted. -/
theorem mem_insert {m : OrderedMap κ α} {k : κ} {v : α} {e : κ × α}
    (h : e ∈ (m.insert k v).entries) : e = (k, v) ∨ e ∈ m.entries := mem_insertEntry h

/-! ## Order -/

def Sorted (m : OrderedMap κ α) : Prop := m.entries.Pairwise fun a b => compare a.1 b.1 = .lt

omit [DecidableEq κ] in
theorem sorted_empty : (empty : OrderedMap κ α).Sorted := List.Pairwise.nil

variable [Std.TransOrd κ] [Std.LawfulEqOrd κ]

/-- The keys still ascend after an insertion. -/
theorem pairwise_insertEntry {k : κ} {v : α} {l : List (κ × α)}
    (h : l.Pairwise fun a b => compare a.1 b.1 = .lt) :
    (insertEntry k v l).Pairwise fun a b => compare a.1 b.1 = .lt := by
  induction l with
  | nil => exact List.pairwise_singleton _ _
  | cons e rest ih =>
    obtain ⟨k', v'⟩ := e
    obtain ⟨hhead, htail⟩ := List.pairwise_cons.1 h
    simp only [insertEntry]
    split
    · next he =>
      subst he
      exact List.pairwise_cons.2 ⟨hhead, htail⟩
    · next hne =>
      split
      · next hlt =>
        refine List.pairwise_cons.2 ⟨List.forall_mem_cons.2 ⟨hlt, fun x hx => ?_⟩, h⟩
        exact Std.TransCmp.lt_trans hlt (hhead x hx)
      · next hnot =>
        have hgt : compare k' k = .lt := by
          rw [← Std.OrientedCmp.gt_iff_lt]
          cases hc : compare k k' with
          | lt => exact absurd hc hnot
          | eq => exact absurd (Std.LawfulEqCmp.compare_eq_iff_eq.1 hc) hne
          | gt => rfl
        refine List.pairwise_cons.2 ⟨fun x hx => ?_, ih htail⟩
        rcases mem_insertEntry hx with rfl | hx
        · exact hgt
        · exact hhead x hx

theorem Sorted.insert {m : OrderedMap κ α} (h : m.Sorted) (k : κ) (v : α) :
    (m.insert k v).Sorted := pairwise_insertEntry h

omit [DecidableEq κ] [Std.LawfulEqOrd κ] in
theorem Sorted.nodup_keys {m : OrderedMap κ α} (h : m.Sorted) : m.keys.Nodup :=
  List.pairwise_map.2 <| h.imp fun {a b} hlt he => by
    have hself : compare b.1 b.1 = .eq := Std.ReflCmp.compare_self
    rw [he, hself] at hlt
    cases hlt

omit [Ord κ] [Std.TransOrd κ] [Std.LawfulEqOrd κ] in
theorem findEntry_of_mem {k : κ} {v : α} {l : List (κ × α)} (h : (l.map (·.1)).Nodup)
    (hmem : (k, v) ∈ l) : findEntry k l = some v := by
  induction l with
  | nil => cases hmem
  | cons e rest ih =>
    obtain ⟨k', v'⟩ := e
    obtain ⟨hfree, hrest⟩ := List.nodup_cons.1 h
    rcases List.mem_cons.1 hmem with he | hmem
    · cases he
      exact if_pos rfl
    · have hkey : k ∈ rest.map (·.1) := List.mem_map_of_mem (f := Prod.fst) hmem
      have hne : k ≠ k' := fun he => hfree (he ▸ hkey)
      rw [findEntry, if_neg hne]
      exact ih hrest hmem

omit [Std.LawfulEqOrd κ] in
/-- What stands in a sorted map is found there. -/
theorem Sorted.find?_eq_some {m : OrderedMap κ α} (h : m.Sorted) {k : κ} {v : α} :
    m.find? k = some v ↔ (k, v) ∈ m.entries :=
  ⟨mem_of_find?, findEntry_of_mem h.nodup_keys⟩

end OrderedMap

end CheckedPointers
