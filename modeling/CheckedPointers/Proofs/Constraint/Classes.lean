import CheckedPointers.Constraint.Solution
import Mathlib.Logic.Relation
import Mathlib.Tactic.Tauto

/-!
What the cells of a constraint store stand for. Two atoms carry one label exactly when recorded
equations join them, and the bound of a class is the join of the bounds recorded for its members.
-/
namespace CheckedPointers

namespace Constraint

def Known (n : Nat) : Constraint → Prop
  | equal a b => a < n ∧ b < n
  | atLeast a _ => a < n

instance (n : Nat) : (c : Constraint) → Decidable (c.Known n)
  | equal a b => inferInstanceAs (Decidable (a < n ∧ b < n))
  | atLeast a _ => inferInstanceAs (Decidable (a < n))

@[simp] theorem known_equal (n a b : Nat) : (equal a b).Known n ↔ a < n ∧ b < n := Iff.rfl
@[simp] theorem known_atLeast (n a : Nat) (c : Category) : (atLeast a c).Known n ↔ a < n := Iff.rfl

theorem Known.mono {c : Constraint} {m n : Nat} (h : c.Known m) (hmn : m ≤ n) : c.Known n := by
  cases c <;> simp only [known_equal, known_atLeast] at h ⊢ <;> omega

@[simp] theorem known_normalized (n : Nat) (c : Constraint) : c.normalized.Known n ↔ c.Known n := by
  cases c with
  | equal a b => simp only [normalized]; split <;> simp [and_comm]
  | atLeast a k => rfl

/-- Swapping the sides of an equation changes nothing that its canonical form shows. -/
theorem normalized_equal_comm (a b : Atom) : (equal a b).normalized = (equal b a).normalized := by
  rcases Nat.lt_trichotomy a b with h | h | h
  · simp [normalized, h, Nat.lt_asymm h]
  · subst h; rfl
  · simp [normalized, h, Nat.lt_asymm h]

end Constraint

namespace Category

/-- Every bound other than the safest has one just below it. -/
theorem exists_below {c : Category} (h : c ≠ ptr) : ∃ p, ¬ c ≤ p ∧ ∀ k, ¬ c ≤ k → k ≤ p := by
  cases c with
  | ptr => exact absurd rfl h
  | arr => exact ⟨ptr, by decide, fun k => by cases k <;> decide⟩
  | ntArr => exact ⟨arr, by decide, fun k => by cases k <;> decide⟩
  | wild => exact ⟨ntArr, by decide, fun k => by cases k <;> decide⟩

theorem not_lt {a b : Category} : ¬ a < b ↔ b ≤ a := Nat.not_lt

theorem le_ptr {c : Category} : c ≤ ptr ↔ c = ptr := by cases c <;> decide

end Category

namespace ConstraintSystem

variable {cs : Array Constraint} {s : ConstraintSystem} {a b c x y z : Atom}

/-- A recorded equation, read in either direction. -/
def Joined (cs : Array Constraint) (a b : Atom) : Prop := .equal a b ∈ cs ∨ .equal b a ∈ cs

/-- A path of recorded equations. -/
def Linked (cs : Array Constraint) : Atom → Atom → Prop := Relation.ReflTransGen (Joined cs)

theorem Joined.symm (h : Joined cs a b) : Joined cs b a := Or.symm h

theorem Linked.refl (cs : Array Constraint) (a : Atom) : Linked cs a a := Relation.ReflTransGen.refl

theorem Linked.trans (h : Linked cs a b) (h' : Linked cs b c) : Linked cs a c :=
  Relation.ReflTransGen.trans h h'

theorem Linked.symm (h : Linked cs a b) : Linked cs b a := by
  induction h with
  | refl => exact .refl cs a
  | tail _ hj ih => exact .trans (Relation.ReflTransGen.single hj.symm) ih

theorem Linked.of_equal (h : .equal a b ∈ cs) : Linked cs a b :=
  Relation.ReflTransGen.single (Or.inl h)

theorem Linked.mono {cs' : Array Constraint} (hsub : ∀ c ∈ cs, c ∈ cs') (h : Linked cs a b) :
    Linked cs' a b := by
  induction h with
  | refl => exact .refl cs' a
  | tail _ hj ih => exact ih.trans (Relation.ReflTransGen.single (hj.imp (hsub _) (hsub _)))

/-- Equations that relate only atoms of one category relate all atoms that they link. -/
theorem Linked.value_eq {value : Atom → Category}
    (hsat : ∀ c ∈ cs, Solution.Satisfies value c) (h : Linked cs a b) : value a = value b := by
  induction h with
  | refl => rfl
  | tail _ hj ih =>
    rw [ih]
    rcases hj with hj | hj
    · exact hsat _ hj
    · exact (hsat _ hj).symm

/-- An atom that no constraint names is linked with itself only. -/
theorem Linked.eq_of_unknown {n a b : Nat} (hknown : ∀ c ∈ cs, c.Known n) (ha : n ≤ a)
    (h : Linked cs a b) : a = b := by
  induction h with
  | refl => rfl
  | tail _ hj ih =>
    subst ih
    rcases hj with hj | hj
    · have hlt := (hknown _ hj).1
      exact absurd hlt (Nat.not_lt.2 ha)
    · have hlt := (hknown _ hj).2
      exact absurd hlt (Nat.not_lt.2 ha)

@[simp] theorem linked_push_atLeast (cs : Array Constraint) (d : Atom) (k : Category) :
    Linked (cs.push (.atLeast d k)) a b ↔ Linked cs a b := by
  have h : Joined (cs.push (.atLeast d k)) = Joined cs := by
    funext x y
    simp [Joined]
  simp [Linked, h]

/-- One more equation links what its two sides were linked with. -/
theorem linked_push_equal (cs : Array Constraint) (a b x y : Atom) :
    Linked (cs.push (.equal a b)) x y ↔
      Linked cs x y ∨ (Linked cs x a ∧ Linked cs b y) ∨ (Linked cs x b ∧ Linked cs a y) := by
  have old : ∀ c ∈ cs, c ∈ cs.push (.equal a b) := fun c hc => Array.mem_push_of_mem _ hc
  have new : Linked (cs.push (.equal a b)) a b := .of_equal Array.mem_push_self
  constructor
  · intro h
    induction h with
    | refl => exact .inl (.refl cs x)
    | @tail y z _ hj ih =>
      have step : Joined cs y z ∨ (y = a ∧ z = b) ∨ (y = b ∧ z = a) := by
        simp only [Joined, Array.mem_push, Constraint.equal.injEq] at hj ⊢
        tauto
      rcases step with hyz | ⟨rfl, rfl⟩ | ⟨rfl, rfl⟩
      · have hyz : Linked cs y z := Relation.ReflTransGen.single hyz
        exact ih.imp (·.trans hyz) (.imp (.imp_right (·.trans hyz)) (.imp_right (·.trans hyz)))
      · rcases ih with h | ⟨h, -⟩ | ⟨h, -⟩
        · exact .inr (.inl ⟨h, .refl cs _⟩)
        · exact .inr (.inl ⟨h, .refl cs _⟩)
        · exact .inl h
      · rcases ih with h | ⟨h, -⟩ | ⟨h, -⟩
        · exact .inr (.inr ⟨h, .refl cs _⟩)
        · exact .inl h
        · exact .inr (.inr ⟨h, .refl cs _⟩)
  · rintro (h | ⟨h, h'⟩ | ⟨h, h'⟩)
    · exact h.mono old
    · exact (h.mono old).trans (new.trans (h'.mono old))
    · exact (h.mono old).trans (new.symm.trans (h'.mono old))

def BoundedBy (cs : Array Constraint) (a : Atom) (k : Category) : Prop :=
  ∀ b j, .atLeast b j ∈ cs → Linked cs a b → j ≤ k

theorem BoundedBy.linked {k : Category} (h : BoundedBy cs a k) (hab : Linked cs a b) :
    BoundedBy cs b k := fun d j hd hbd => h d j hd (hab.trans hbd)

/-- One more equation brings the bounds of the other side to what either side was linked with. -/
theorem boundedBy_push_equal {k : Category} : BoundedBy (cs.push (.equal a b)) x k ↔
    BoundedBy cs x k ∧ (Linked cs x a → BoundedBy cs b k) ∧
      (Linked cs x b → BoundedBy cs a k) := by
  simp only [BoundedBy, Array.mem_push, reduceCtorEq, or_false, linked_push_equal]
  constructor
  · intro h
    exact ⟨fun d j hd hxd => h d j hd (.inl hxd),
      fun hxa d j hd hbd => h d j hd (.inr (.inl ⟨hxa, hbd⟩)),
      fun hxb d j hd had => h d j hd (.inr (.inr ⟨hxb, had⟩))⟩
  · rintro ⟨hx, hb, ha⟩ d j hd (hxd | ⟨hxa, hbd⟩ | ⟨hxb, had⟩)
    · exact hx d j hd hxd
    · exact hb hxa d j hd hbd
    · exact ha hxb d j hd had

/-- A further bound counts for the classes that it reaches. -/
theorem boundedBy_push_atLeast {j k : Category} : BoundedBy (cs.push (.atLeast a j)) x k ↔
    BoundedBy cs x k ∧ (Linked cs x a → j ≤ k) := by
  simp only [BoundedBy, Array.mem_push, Constraint.atLeast.injEq, linked_push_atLeast]
  constructor
  · intro h
    exact ⟨fun d i hd => h d i (.inl hd), fun hxa => h a j (.inr ⟨rfl, rfl⟩) hxa⟩
  · rintro ⟨hx, ha⟩ d i (hd | ⟨rfl, rfl⟩) hxd
    · exact hx d i hd hxd
    · exact ha hxd

/-- The cells say of the recorded constraints what they are there to say. -/
structure Sound (s : ConstraintSystem) : Prop where
  known : ∀ c ∈ s.constraints, c.Known s.cells.size
  label_lt : ∀ {a : Atom} {x : Cell}, s.cells[a]? = some x → x.label < s.cells.size
  label_eq_iff : ∀ {a b : Atom} {x y : Cell}, s.cells[a]? = some x → s.cells[b]? = some y →
    (x.label = y.label ↔ Linked s.constraints a b)
  /-- The bound is the least one above all bounds recorded for the class. -/
  bound_le_iff : ∀ {a : Atom} {x : Cell}, s.cells[a]? = some x → ∀ c, x.bound ≤ c ↔
    ∀ b k, .atLeast b k ∈ s.constraints → Linked s.constraints a b → k ≤ c
  /-- What is recorded is in canonical form and says something. -/
  canonical : ∀ c ∈ s.constraints, c.normalized = c ∧ ¬ c.isTrivial
  nodup : s.constraints.toList.Nodup

theorem sound_empty : Sound empty where
  known := by simp [empty]
  label_lt := by simp [empty]
  label_eq_iff := by simp [empty]
  bound_le_iff := by simp [empty]
  canonical := by simp [empty]
  nodup := by simp [empty]

/-- The bound of a class does not depend on the atom that is asked. -/
theorem Sound.bound_le_iff_of_label (h : Sound s) {x y : Cell} {k : Category}
    (hx : s.cells[a]? = some x) (hy : s.cells[b]? = some y) (hl : x.label = y.label) :
    x.bound ≤ k ↔ y.bound ≤ k := by
  have hab := (h.label_eq_iff hx hy).1 hl
  rw [h.bound_le_iff hx, h.bound_le_iff hy]
  exact ⟨fun hk => BoundedBy.linked hk hab, fun hk => BoundedBy.linked hk hab.symm⟩

theorem fresh_cells_getElem? (s : ConstraintSystem) (a : Nat) :
    s.fresh.2.cells[a]? = if a = s.cells.size then some ⟨a, .mostSafe⟩ else s.cells[a]? := by
  simp only [fresh, Array.getElem?_push]
  split
  · next h => rw [h]
  · rfl

/-- A new atom is a class of its own. -/
theorem Sound.fresh (h : Sound s) : Sound s.fresh.2 where
  known c hc := (h.known c hc).mono (by simp [ConstraintSystem.fresh])
  label_lt {a x} hx := by
    rw [fresh_cells_getElem?] at hx
    simp only [ConstraintSystem.fresh, Array.size_push]
    split at hx
    · next ha =>
      obtain rfl := Option.some.inj hx
      exact Nat.lt_succ_of_le (Nat.le_of_eq ha)
    · exact Nat.lt_succ_of_lt (h.label_lt hx)
  label_eq_iff {a b x y} hx hy := by
    have lt {c : Nat} {w : Cell} (hw : s.cells[c]? = some w) : c < s.cells.size :=
      (Array.getElem?_eq_some_iff.1 hw).1
    have ne_label {c d : Nat} {w : Cell} (hc : c = s.cells.size) (hw : s.cells[d]? = some w) :
        c ≠ w.label := fun he => absurd (h.label_lt hw) (by omega)
    have not_linked {c d : Nat} {w : Cell} (hc : c = s.cells.size) (hw : s.cells[d]? = some w) :
        ¬ Linked s.constraints c d := fun hl => by
      have he := hl.eq_of_unknown h.known (Nat.le_of_eq hc.symm)
      have hlt := lt hw
      omega
    rw [fresh_cells_getElem?] at hx hy
    change _ ↔ Linked s.constraints a b
    split at hx <;> split at hy
    · next ha hb => subst ha hb; simp_all [Linked.refl]
    · next ha hb =>
      obtain rfl := Option.some.inj hx
      exact iff_of_false (ne_label ha hy) (not_linked ha hy)
    · next ha hb =>
      obtain rfl := Option.some.inj hy
      exact iff_of_false (ne_label hb hx).symm (not_linked hb hx ∘ Linked.symm)
    · exact h.label_eq_iff hx hy
  bound_le_iff {a x} hx c := by
    rw [fresh_cells_getElem?] at hx
    change _ ↔ ∀ b k, .atLeast b k ∈ s.constraints → Linked s.constraints a b → k ≤ c
    split at hx
    · next ha =>
      obtain rfl := Option.some.inj hx
      refine ⟨fun _ b k hb hl => ?_, fun _ => Category.ptr_le c⟩
      have hlt := h.known _ hb
      rw [← hl.eq_of_unknown h.known (Nat.le_of_eq ha.symm), ha] at hlt
      exact absurd hlt (Nat.lt_irrefl _)
    · exact h.bound_le_iff hx c
  canonical := h.canonical
  nodup := h.nodup

theorem nodup_push {c : Constraint} (h : cs.toList.Nodup) (hc : c ∉ cs) :
    (cs.push c).toList.Nodup := by
  rw [Array.toList_push, List.nodup_append]
  refine ⟨h, by simp, ?_⟩
  rintro d hd _ he rfl
  rw [List.mem_singleton.1 he] at hd
  exact hc (Array.mem_def.2 hd)

/-- Two classes become one, with the join of their bounds. -/
theorem Sound.unite (h : Sound s) {x y : Cell} (hx : s.cells[a]? = some x)
    (hy : s.cells[b]? = some y) (hab : a < b) (hnew : .equal a b ∉ s.constraints) :
    Sound ⟨s.cells.map (Cell.unite x y), s.constraints.push (.equal a b)⟩ where
  known c hc := by
    rw [Array.size_map]
    rcases Array.mem_push.1 hc with hc | rfl
    · exact h.known c hc
    · exact ⟨(Array.getElem?_eq_some_iff.1 hx).1, (Array.getElem?_eq_some_iff.1 hy).1⟩
  label_lt {d w} hw := by
    rw [Array.getElem?_map, Option.map_eq_some_iff] at hw
    obtain ⟨v, hv, rfl⟩ := hw
    have hlx := h.label_lt hx
    have hlv := h.label_lt hv
    rw [Array.size_map, Cell.unite]
    split
    · exact hlx
    · exact hlv
  label_eq_iff {d e w w'} hw hw' := by
    rw [Array.getElem?_map, Option.map_eq_some_iff] at hw hw'
    obtain ⟨v, hv, rfl⟩ := hw
    obtain ⟨v', hv', rfl⟩ := hw'
    rw [linked_push_equal, ← h.label_eq_iff hv hv', ← h.label_eq_iff hv hx,
      ← h.label_eq_iff hy hv', ← h.label_eq_iff hv hy, ← h.label_eq_iff hx hv']
    grind [Cell.unite]
  bound_le_iff {d w} hw c := by
    rw [Array.getElem?_map, Option.map_eq_some_iff] at hw
    obtain ⟨v, hv, rfl⟩ := hw
    have hbound : ∀ {e : Atom} {u : Cell}, s.cells[e]? = some u →
        (u.bound ≤ c ↔ BoundedBy s.constraints e c) := fun hu => h.bound_le_iff hu c
    change _ ↔ BoundedBy (s.constraints.push (.equal a b)) d c
    rw [boundedBy_push_equal, ← h.label_eq_iff hv hx, ← h.label_eq_iff hv hy, ← hbound hv,
      ← hbound hx, ← hbound hy, Cell.unite]
    split
    · next hl =>
      rw [Category.join_le]
      rcases hl with hl | hl
      · have hsame := h.bound_le_iff_of_label (k := c) hv hx hl
        tauto
      · have hsame := h.bound_le_iff_of_label (k := c) hv hy hl
        tauto
    · tauto
  canonical c hc := by
    rcases Array.mem_push.1 hc with hc | rfl
    · exact h.canonical c hc
    · simp [Constraint.normalized, Constraint.isTrivial, Nat.lt_asymm hab, Nat.ne_of_lt hab]
  nodup := nodup_push h.nodup hnew

/-- A class gets one more bound. -/
theorem Sound.raise (h : Sound s) {x : Cell} {k : Category} (hx : s.cells[a]? = some x)
    (hnew : .atLeast a k ∉ s.constraints) :
    Sound ⟨s.cells.map (Cell.raise x k), s.constraints.push (.atLeast a k)⟩ where
  known c hc := by
    rw [Array.size_map]
    rcases Array.mem_push.1 hc with hc | rfl
    · exact h.known c hc
    · exact (Array.getElem?_eq_some_iff.1 hx).1
  label_lt {d w} hw := by
    rw [Array.getElem?_map, Option.map_eq_some_iff] at hw
    obtain ⟨v, hv, rfl⟩ := hw
    have hlv := h.label_lt hv
    rw [Array.size_map, Cell.raise]
    split <;> exact hlv
  label_eq_iff {d e w w'} hw hw' := by
    rw [Array.getElem?_map, Option.map_eq_some_iff] at hw hw'
    obtain ⟨v, hv, rfl⟩ := hw
    obtain ⟨v', hv', rfl⟩ := hw'
    have same (u : Cell) : (Cell.raise x k u).label = u.label := by
      rw [Cell.raise]; split <;> rfl
    rw [linked_push_atLeast, same, same]
    exact h.label_eq_iff hv hv'
  bound_le_iff {d w} hw c := by
    rw [Array.getElem?_map, Option.map_eq_some_iff] at hw
    obtain ⟨v, hv, rfl⟩ := hw
    have hbound : v.bound ≤ c ↔ BoundedBy s.constraints d c := h.bound_le_iff hv c
    change _ ↔ BoundedBy (s.constraints.push (.atLeast a k)) d c
    rw [boundedBy_push_atLeast, ← h.label_eq_iff hv hx, ← hbound, Cell.raise]
    split
    · next hl => rw [Category.join_le, imp_iff_right hl]
    · next hl => exact (and_iff_left fun hl' => absurd hl' hl).symm
  canonical c hc := by
    rcases Array.mem_push.1 hc with hc | rfl
    · exact h.canonical c hc
    · simp [Constraint.normalized, Constraint.isTrivial]
  nodup := nodup_push h.nodup hnew

end ConstraintSystem

end CheckedPointers
