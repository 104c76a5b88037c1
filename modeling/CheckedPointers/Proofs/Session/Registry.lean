import CheckedPointers.Proofs.Analysis.Seating

/-!
The tables of definitions and declarations. Whatever is asked of a session, a key of definitions is
listed once, and under a key that is listed something stands.
-/
namespace CheckedPointers

open Op

namespace Pairing

variable {key : FunctionKey} {v : VarId} {l : List (FunctionKey × VarSet)} {r : Pairing}

/-- A new key goes last. -/
theorem keys_addTo : (addTo key v l).map Prod.fst =
    if key ∈ l.map Prod.fst then l.map Prod.fst else l.map Prod.fst ++ [key] := by
  induction l with
  | nil => rfl
  | cons e rest ih =>
    unfold addTo
    split
    · next hsame => simp [hsame]
    · next hother =>
      rw [List.map_cons, ih, List.map_cons]
      by_cases hrest : key ∈ rest.map Prod.fst
      · rw [if_pos hrest, if_pos (List.mem_cons_of_mem _ hrest)]
      · rw [if_neg hrest, if_neg (List.not_mem_cons_of_ne_of_not_mem hother hrest)]
        rfl

/-- An entry was there, or the variable was added to it. -/
theorem entry_of_mem_addTo {e : FunctionKey × VarSet} (he : e ∈ addTo key v l) :
    e ∈ l ∨ e.2 = .singleton v ∨ ∃ e' ∈ l, e.2 = e'.2.insert v := by
  induction l with
  | nil =>
    obtain rfl := List.mem_singleton.1 he
    exact .inr (.inl rfl)
  | cons e' rest ih =>
    unfold addTo at he
    split at he
    · rcases List.mem_cons.1 he with rfl | he
      · exact .inr (.inr ⟨e', List.mem_cons_self, rfl⟩)
      · exact .inl (List.mem_cons_of_mem _ he)
    · rcases List.mem_cons.1 he with rfl | he
      · exact .inl List.mem_cons_self
      · rcases ih he with he | he | ⟨e'', he'', he⟩
        · exact .inl (List.mem_cons_of_mem _ he)
        · exact .inr (.inl he)
        · exact .inr (.inr ⟨e'', List.mem_cons_of_mem _ he'', he⟩)

/-- A key is listed once, in every set the variables ascend, and no set is empty. -/
structure Tight (r : Pairing) : Prop where
  keys : (r.definitions.map Prod.fst).Nodup
  definitions : ∀ e ∈ r.definitions, e.2.Ascending ∧ ∃ v, v ∈ e.2
  declared : ∀ key set, r.declared? key = some set → ∃ v, v ∈ set

theorem tight_empty : Tight .empty where
  keys := .nil
  definitions := fun _ he => nomatch he
  declared := fun _ _ h => nomatch h

theorem Tight.define (h : r.Tight) (key : FunctionKey) (v : VarId) : (r.define key v).Tight where
  keys := by
    rw [Pairing.define, keys_addTo]
    split
    · exact h.keys
    · next hnew => exact h.keys.append (List.nodup_singleton key) (by simpa using hnew)
  definitions e he := by
    rcases entry_of_mem_addTo he with he | he | ⟨e', he', he⟩
    · exact h.definitions e he
    · rw [he]
      exact ⟨VarSet.ascending_singleton v, v, (VarSet.mem_singleton v v).2 rfl⟩
    · rw [he]
      exact ⟨(h.definitions e' he').1.insert v, v, (VarSet.mem_insert _ v v).2 (.inl rfl)⟩
  declared := h.declared

theorem Tight.declare (h : r.Tight) (key : FunctionKey) (v : VarId) : (r.declare key v).Tight where
  keys := h.keys
  definitions := h.definitions
  declared key' set hset := by
    simp only [Pairing.declare, Pairing.declared?, OrderedMap.find?_insert] at hset
    split at hset
    · exact ⟨v, Option.some.inj hset ▸ (VarSet.mem_insert _ v v).2 (.inl rfl)⟩
    · exact h.declared key' set hset

end Pairing

namespace Session

variable {s : Session} {options : Options}

/-- The tables are tight, whatever was asked for. -/
theorem Reachable.tight (h : Reachable options s) : s.pairing.Tight := by
  apply h.keeps (P := fun s => s.pairing.Tight) Pairing.tight_empty
  · intro s t _ hst hall
    cases hst.step.notes with
    | nothing hdefinitions hdeclarations =>
      refine ⟨hdefinitions ▸ hall.keys, hdefinitions ▸ hall.definitions, fun key set hset => ?_⟩
      rw [Pairing.declared?, hdeclarations] at hset
      exact hall.declared key set hset
    | definition _ hpairing => exact hpairing ▸ hall.define _ _
    | declaration _ hpairing => exact hpairing ▸ hall.declare _ _
  · exact fun _ hall => hall

end Session

end CheckedPointers
