import CheckedPointers.Proofs.Session.Stepping

/-!
What is known to lie one dereference below a variable. It does lie there: it is the rest of the
variable, made once and for this variable alone, and where nothing is known to lie no level remains.
-/
namespace CheckedPointers

namespace Arena

variable {arena arena' : Arena} {v : VarId} {made : Option VarId}

/-- What lies one dereference below `v`: a later pointer that is the rest of `v`, or nothing. -/
def HasBelow (arena : Arena) (v : VarId) : Option VarId → Prop
  | some d => v < d ∧ ∃ p q, arena.pointer? v = some p ∧ p.dereferenced? = some q ∧
      arena.pointer? d = some q
  | none => v < arena.size ∧ (arena.pointer? v).bind PointerVariable.dereferenced? = none

theorem HasBelow.lt (h : arena.HasBelow v made) : v < arena.size := by
  cases made with
  | some d =>
    obtain ⟨-, p, -, hp, -⟩ := h
    exact lt_of_pointer? hp
  | none => exact h.1

/-- What lies below a variable lies there in an arena that has grown. -/
theorem HasBelow.grows (h : arena.HasBelow v made) (hg : arena.Grows arena') :
    arena'.HasBelow v made := by
  cases made with
  | some d =>
    obtain ⟨hlt, p, q, hp, hq, hd⟩ := h
    exact ⟨hlt, p, q, hg.pointer? hp, hq, hg.pointer? hd⟩
  | none =>
    refine ⟨Nat.lt_of_lt_of_le h.1 hg.size_le, ?_⟩
    rw [hg.pointer?_eq h.1]
    exact h.2

end Arena

namespace PointerVariable

variable {p q : PointerVariable}

/-- Only the outermost level is taken off. -/
theorem dereferenced?_eq_some (h : p.dereferenced? = some q) :
    q = { p with atoms := p.atoms.tail } ∧ ∃ a, p.atoms = a :: q.atoms := by
  unfold dereferenced? at h
  split at h
  · next a b rest hatoms =>
    cases h
    exact ⟨by rw [hatoms, List.tail_cons], a, hatoms⟩
  · cases h

/-- No level remains below the last one. -/
theorem dereferenced?_eq_none : p.dereferenced? = none ↔ p.atoms.length < 2 := by
  unfold dereferenced?
  split
  · next a b rest hatoms => simp [hatoms]
  · next hatoms =>
    match h : p.atoms with
    | [] | [_] => simp
    | a :: b :: rest => exact absurd h (hatoms a b rest)

end PointerVariable

namespace Session

variable {s t : Session} {v : VarId} {options : Options}

/-- A step finds out what lies below one variable at most, and makes it if there is a level left. -/
theorem Step.finds_below (h : s.Step t) : t.pointees = s.pointees ∨
    ∃ v made, s.pointees.find? v = none ∧ t.pointees = s.pointees.insert v made ∧
      t.arena.HasBelow v made ∧ ∀ d, made = some d → d = s.arena.size := by
  rcases h.looks_or_same with hlook | hsame
  · cases hlook with
    | builds h => exact .inl (by rw [h.only])
    | signs | quotes | guesses => exact .inl rfl
    | @derives v p q hfree hp hq =>
      refine .inr ⟨v, some s.arena.size, hfree, rfl, ?_, fun _ h => (Option.some.inj h).symm⟩
      have hnew : Arena.pointer? (s.arena.push (.pointer q)) s.arena.size = some q := by
        simp [Arena.pointer?_push, Variable.pointer?]
      exact ⟨Arena.lt_of_pointer? hp, p, q, (s.arena.grows_push _).pointer? hp, hq, hnew⟩
    | @bottoms v hfree hv hlast =>
      exact .inr ⟨v, none, hfree, rfl, ⟨hv, hlast⟩, by simp⟩
  · exact .inl hsame.pointees

/-- What is known to lie below variables lies there, and below no two variables lies the same. -/
structure KnowsBelow (s : Session) : Prop where
  lies : ∀ v made, s.pointees.find? v = some made → s.arena.HasBelow v made
  once : ∀ v w d, s.pointees.find? v = some (some d) → s.pointees.find? w = some (some d) → v = w

/-- No step forgets or doubles what lies below a variable. -/
theorem KnowsBelow.step (h : s.KnowsBelow) (hs : s.WellFormed) (hst : s.Step t) :
    t.KnowsBelow := by
  have hgrows := (hst.extends hs).arena
  rcases hst.finds_below with heq | ⟨v₀, made₀, -, heq, hbelow, hnew⟩
  · refine ⟨fun v made hv => ?_, ?_⟩
    · rw [heq] at hv
      exact (h.lies v made hv).grows hgrows
    · rw [heq]
      exact h.once
  · -- what was known before is older than what is made now
    have hold : ∀ v d, s.pointees.find? v = some (some d) → made₀ ≠ some d := by
      intro v d hv hmade
      have hd := Arena.lt_of_isPointer (hs.pointees _ (OrderedMap.mem_of_find? hv) d rfl)
      exact absurd (hnew d hmade) (Nat.ne_of_lt hd)
    refine ⟨fun v made hv => ?_, fun v w d hv hw => ?_⟩
    · rw [heq, OrderedMap.find?_insert] at hv
      split at hv
      · next hvv =>
        cases hv
        exact hvv ▸ hbelow
      · exact (h.lies v made hv).grows hgrows
    · rw [heq, OrderedMap.find?_insert] at hv hw
      split at hv <;> split at hw
      · next hvv hww => exact hvv.trans hww.symm
      · exact absurd (Option.some.inj hv) (hold w d hw)
      · exact absurd (Option.some.inj hw) (hold v d hv)
      · exact h.once v w d hv hw

theorem Arises.knowsBelow (h : Arises options s) : s.KnowsBelow :=
  h.keeps ⟨fun _ _ hv => (nomatch hv), fun _ _ _ hv => nomatch hv⟩
    fun _ _ hs hst hknows => hknows.step hs hst

/-- What lies below a variable has all of it but the first level. -/
theorem KnowsBelow.rest {d : VarId} (h : s.KnowsBelow)
    (hv : s.pointees.find? v = some (some d)) : ∃ p a, s.arena.pointer? v = some p ∧
      p.atoms = a :: p.atoms.tail ∧ s.arena.pointer? d = some { p with atoms := p.atoms.tail } := by
  obtain ⟨-, p, q, hp, hq, hd⟩ := h.lies v _ hv
  obtain ⟨rfl, a, ha⟩ := PointerVariable.dereferenced?_eq_some hq
  exact ⟨p, a, hp, ha, hd⟩

/-- Nothing lies below functions and pointers of one level at most. -/
theorem KnowsBelow.bottom (h : s.KnowsBelow) (hv : s.pointees.find? v = some none) :
    s.arena.isFunction v ∨ ∃ p, s.arena.pointer? v = some p ∧ p.atoms.length < 2 := by
  obtain ⟨hlt, hlast⟩ := h.lies v _ hv
  rcases Arena.pointer_or_function hlt with ⟨p, -, hp⟩ | ⟨f, -, hf⟩
  · rw [hp, Option.bind_some, PointerVariable.dereferenced?_eq_none] at hlast
    exact .inr ⟨p, hp, hlast⟩
  · exact .inl (Arena.isFunction_iff.2 ⟨f, hf⟩)

end Session

end CheckedPointers
