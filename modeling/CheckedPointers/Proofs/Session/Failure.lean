import CheckedPointers.Proofs.Session.Denotation
import CheckedPointers.Proofs.Session.Linking
import CheckedPointers.Proofs.Source.Closed
import CheckedPointers.Proofs.Variable.Ownership

/-!
In which ways an operation may fail. What an operation establishes when it ends is known from
elsewhere; here it is only asked whether it does. In a well-formed session nothing fails that is
asked of variables that are there.
-/
namespace CheckedPointers

namespace Op

variable {α β : Type} {R : Frame} {s : Session} {x : Op α} {f : α → Op β} {may : Failure → Prop}
  {P : α → Session → Prop}

/-- From `s` the operation fails only in a way that `may` admits. -/
structure FailsOnly (may : Failure → Prop) (x : Op α) (s : Session) : Prop where
  of_error : ∀ e t, x s = (.error e, t) → may e

/-- An operation that may not fail ends. -/
theorem FailsOnly.ends (h : FailsOnly (fun _ => False) x s) : ∃ a t, x.Ends s a t := by
  rcases hx : x s with ⟨e | a, t⟩
  · exact (h.of_error e t hx).elim
  · exact ⟨a, t, hx⟩

theorem FailsOnly.of_ends {a : α} {t : Session} (h : x.Ends s a t) : FailsOnly may x s := by
  constructor
  intro e w he
  rw [Ends, he] at h
  cases h

theorem FailsOnly.pure {a : α} : FailsOnly may (Pure.pure a) s := .of_ends (ends_pure.2 ⟨rfl, rfl⟩)

theorem FailsOnly.unresolved {e : ShapeError} (h : may (.unresolved e)) :
    FailsOnly may (unresolved e : Op α) s := by
  constructor
  intro e' t he
  cases he
  exact h

/-- A sequence fails only as one of its parts may. -/
theorem FailsOnly.bind (hx : FailsOnly may x s)
    (hf : ∀ a t, x.Ends s a t → FailsOnly may (f a) t) : FailsOnly may (x >>= f) s := by
  constructor
  intro e t he
  rw [bind_run] at he
  rcases hr : x s with ⟨e' | a, u⟩
  · rw [hr] at he
    cases he
    exact hx.of_error e t hr
  · rw [hr] at he
    exact (hf a u hr).of_error e t he

/-- What comes next may rely on what the first operation establishes. -/
theorem FailsOnly.bind_meets (hx : FailsOnly may x s) (hm : Meets R x s P)
    (hf : ∀ a t, R.rel s t → P a t → FailsOnly may (f a) t) : FailsOnly may (x >>= f) s :=
  hx.bind fun a t h => hf a t (hm.of_ends h).1 (hm.of_ends h).2

theorem FailsOnly.bind_get {f : Session → Op β} (h : FailsOnly may (f s) s) :
    FailsOnly may (MonadState.get >>= f) s := ⟨h.of_error⟩

/-- A question about the unit that has an answer cannot fail. -/
theorem FailsOnly.bind_gives {y : Except Fault α} {P : α → Prop} (hy : Gives y P)
    (h : ∀ a, y = .ok a → P a → FailsOnly may (f a) s) : FailsOnly may (liftM y >>= f) s := by
  obtain ⟨a, rfl, hp⟩ := hy
  exact h a rfl hp

theorem FailsOnly.bind_known {o : Option α} {a : α} (ho : o = some a)
    (h : FailsOnly may (f a) s) : FailsOnly may (known o >>= f) s := by
  rw [ho]
  exact h

theorem FailsOnly.map {g : α → β} (h : FailsOnly may x s) : FailsOnly may (g <$> x) s := by
  constructor
  intro e t he
  rw [map_run] at he
  rcases hr : x s with ⟨e' | a, u⟩
  · rw [hr] at he
    cases he
    exact h.of_error e t hr
  · rw [hr] at he
    cases he

theorem FailsOnly.discard (h : FailsOnly may x s) : FailsOnly may (discard x) s := h.map

/-- An attempt hides that the operation was given up. -/
theorem FailsOnly.attempt {x : Op PUnit}
    (h : FailsOnly (fun e => may e ∨ ∃ e', e = .unresolved e') x s) :
    FailsOnly may (attempt x) s := by
  constructor
  intro e t he
  rw [attempt_run] at he
  rcases hr : x s with ⟨(f | e') | a, u⟩ <;> rw [hr] at he <;> cases he
  rcases h.of_error _ _ hr with hmay | ⟨e', he'⟩
  · exact hmay
  · cases he'

/-- No turn of a loop fails if every turn leaves what the next ones rely on. -/
theorem FailsOnly.forM {g : α → Op PUnit} {l : List α} {I : Session → Prop} (hs : I s)
    (h : ∀ a ∈ l, ∀ t, I t → FailsOnly may (g a) t)
    (hkeep : ∀ a ∈ l, ∀ t, I t → ∀ u, (g a).Ends t ⟨⟩ u → I u) :
    FailsOnly may (l.forM g) s := by
  induction l generalizing s with
  | nil => exact .pure
  | cons a rest ih =>
    change FailsOnly may (g a >>= fun _ => rest.forM g) s
    apply (h a List.mem_cons_self s hs).bind
    intro _ t ht
    apply ih (hkeep a List.mem_cons_self s hs t ht)
    · exact fun b hb => h b (List.mem_cons_of_mem a hb)
    · exact fun b hb => hkeep b (List.mem_cons_of_mem a hb)

/-- In a well-formed session a loop that only records does not fail if no turn does. -/
theorem FailsOnly.forM_records {g : α → Op PUnit} {l : List α} (hs : s.WellFormed)
    (h : ∀ a ∈ l, ∀ t, s.Records t → t.WellFormed → FailsOnly may (g a) t)
    (hm : ∀ a ∈ l, ∀ t, Meets .records (g a) t fun _ _ => True) :
    FailsOnly may (l.forM g) s := by
  apply FailsOnly.forM (I := fun t => s.Records t ∧ t.WellFormed) ⟨.refl s, hs⟩
  · exact fun a ha t ht => h a ha t ht.1 ht.2
  · intro a ha t ht u hu
    have htu : t.Records u := ((hm a ha t).of_ends hu).1
    exact ⟨ht.1.trans htu, htu.creates.wellFormed ht.2⟩

end Op

open Op

namespace Session

variable {s : Session} {may : Failure → Prop}

/-! ## Recording -/

theorem addConstraint_failsOnly {c : Constraint} (hk : c.Known s.solver.cells.size) :
    FailsOnly may (addConstraint c) s := by
  obtain ⟨b, t, h⟩ := addConstraint_ends hk
  exact .of_ends h

theorem boundAtoms_failsOnly {c : Category} {atoms : List Atom}
    (h : ∀ a ∈ atoms, a < s.solver.cells.size) : FailsOnly may (boundAtoms c atoms) s := by
  induction atoms generalizing s with
  | nil => exact .pure
  | cons a rest ih =>
    apply (addConstraint_failsOnly (c := .atLeast a c) (h a List.mem_cons_self)).bind_meets
      (addConstraint_meets _ s)
    intro _ t (hst : s.Records t) _
    have hrest : ∀ b ∈ rest, b < t.solver.cells.size := fun b hb =>
      hst.size ▸ h b (List.mem_cons_of_mem a hb)
    exact (ih hrest).bind fun _ _ _ => .pure

theorem boundBelow_failsOnly {v : VarId} {c : Category} (hs : s.WellFormed)
    (hv : v < s.arena.size) : FailsOnly may (boundBelow v c) s := by
  obtain ⟨atoms, hatoms, hknown⟩ := hs.arena.exists_atoms hv
  exact FailsOnly.bind_get (FailsOnly.bind_known hatoms (boundAtoms_failsOnly hknown))

theorem boundAll_failsOnly {c : Category} {vs : List VarId} (hs : s.WellFormed)
    (h : ∀ v ∈ vs, v < s.arena.size) : FailsOnly may (boundAll c vs) s := by
  induction vs generalizing s with
  | nil => exact .pure
  | cons v rest ih =>
    apply (boundBelow_failsOnly hs (h v List.mem_cons_self)).bind_meets (boundBelow_meets v c s)
    intro _ t (hst : s.Records t) _
    have hrest : ∀ w ∈ rest, w < t.arena.size := fun w hw =>
      hst.arena ▸ h w (List.mem_cons_of_mem v hw)
    exact (ih (hst.creates.wellFormed hs) hrest).bind fun _ _ _ => .pure

theorem boundSet_failsOnly {set : VarSet} {c : Category} (hs : s.WellFormed) (h : Holds set s) :
    FailsOnly may (boundSet set c) s := boundAll_failsOnly hs h

theorem equate_failsOnly {a b : VarId} (hs : s.WellFormed) (ha : a < s.arena.size)
    (hb : b < s.arena.size) : FailsOnly may (equate a b) s := by
  obtain ⟨eqs, heqs, hknown⟩ := hs.arena.exists_equations ha hb
  apply FailsOnly.bind_get
  apply FailsOnly.bind_known heqs
  apply FailsOnly.forM_records hs
  · intro e he t hst _
    exact (addConstraint_failsOnly (hst.size ▸ hknown e he)).discard
  · exact fun e _ t => Meets.discard (addConstraint_meets _ t).any

/-- Members of known sets can be equated. -/
theorem equateSets_failsOnly {x y : VarSet} (hs : s.WellFormed) (hx : Holds x s)
    (hy : Holds y s) : FailsOnly may (equateSets x y) s := by
  apply FailsOnly.forM_records hs
  · intro a ha t hst ht
    apply FailsOnly.forM_records ht
    · intro b hb w htw hw
      have hsw := hst.trans htw
      exact equate_failsOnly hw (hsw.arena ▸ hx a ha) (hsw.arena ▸ hy b hb)
    · exact fun b _ w => (equate_meets a b w).any
  · intro a _ t
    exact (Meets.forM (P := fun _ _ => True) (fun _ _ _ _ h => h) fun b _ w _ =>
      (equate_meets a b w).any).any

/-! ## Creation -/

theorem freshAtom_failsOnly : FailsOnly may freshAtom s := .of_ends rfl

theorem allocate_failsOnly (v : Variable) : FailsOnly may (allocate v) s := .of_ends rfl

theorem freshAtoms_failsOnly (n : Nat) : FailsOnly may (freshAtoms n) s := by
  induction n generalizing s with
  | zero => exact .pure
  | succ n ih => exact freshAtom_failsOnly.bind fun _ _ _ => ih.bind fun _ _ _ => .pure

theorem newPointerOver_failsOnly {ty : CType} {name : String} {itype : Option String}
    {pointee : Op (Option VarId)} (hp : ∀ s, FailsOnly may pointee s) :
    FailsOnly may (newPointerOver ty name itype pointee) s :=
  (freshAtoms_failsOnly _).bind fun _ t _ => (hp t).bind fun _ _ _ => allocate_failsOnly _

mutual

theorem newPointee_failsOnly (name : String) (s : Session) : (ty : CType) →
    FailsOnly may (newPointee name ty) s
  | .pointer inner => by
    rw [newPointee]
    exact newPointee_failsOnly name s inner
  | .array elem _ => by
    rw [newPointee]
    exact newPointee_failsOnly name s elem
  | .typedef _ underlying => by
    rw [newPointee]
    exact newPointee_failsOnly name s underlying
  | .function ret params variadic hasPrototype => by
    rw [newPointee]
    apply (newPointerOver_failsOnly fun s => newPointee_failsOnly name s ret).bind
    intro _ t _
    apply (newSlots_failsOnly t params).bind
    exact fun _ _ _ => (allocate_failsOnly _).bind fun _ _ _ => .pure
  | .builtin _ => by
    rw [newPointee]
    exact .pure
  | .record _ => by
    rw [newPointee]
    exact .pure

theorem newSlots_failsOnly (s : Session) : (tys : List CType) →
    FailsOnly may (newSlots tys) s
  | [] => by
    rw [newSlots]
    exact .pure
  | ty :: rest => by
    rw [newSlots]
    apply (newPointerOver_failsOnly fun s => newPointee_failsOnly "" s ty).bind
    exact fun _ t _ => (newSlots_failsOnly t rest).bind fun _ _ _ => .pure

end

theorem newPointer_failsOnly (ty : CType) (name : String) (itype : Option String) :
    FailsOnly may (newPointer ty name itype) s :=
  newPointerOver_failsOnly fun s => newPointee_failsOnly name s ty

theorem newParameter_failsOnly {u : TranslationUnit} {d : DeclId} (hs : s.WellFormed)
    (hd : d < u.decls.size) : FailsOnly may (newParameter u d) s := by
  apply FailsOnly.bind_gives (TranslationUnit.decl_gives hd)
  intro p _ _
  apply (newPointer_failsOnly _ _ _).bind_meets (newPointer_meets _ _ _ s)
  intro v t (hst : s.Creates t) hv
  have ht := hst.wellFormed hs
  split
  · exact (boundBelow_failsOnly ht (Arena.lt_of_isPointer hv)).discard.bind fun _ _ _ => .pure
  · exact .pure

theorem newParameters_failsOnly {u : TranslationUnit} {ds : List DeclId} (hs : s.WellFormed)
    (hds : ∀ d ∈ ds, d < u.decls.size) : FailsOnly may (newParameters u ds) s := by
  induction ds generalizing s with
  | nil => exact .pure
  | cons d rest ih =>
    apply (newParameter_failsOnly hs (hds d List.mem_cons_self)).bind_meets
      (newParameter_meets u d s)
    intro _ t (hst : s.Creates t) _
    apply (ih (hst.wellFormed hs) fun d hd => hds d (List.mem_cons_of_mem _ hd)).bind
    exact fun _ _ _ => .pure

/-- Only what is not a function declaration gets no function variable. -/
theorem newFunction_failsOnly {u : TranslationUnit} {func : DeclId}
    (hlisted : ∀ d, u.decl func = .ok d → ∀ p ∈ d.params, p < u.decls.size)
    (hs : s.WellFormed) (hd : func < u.decls.size)
    (h : ∀ d, u.decl func = .ok d → ¬ d.isFunction → may (.fault (.notAFunction d.name))) :
    FailsOnly may (newFunction u func) s := by
  apply FailsOnly.bind_gives (TranslationUnit.decl_gives hd)
  intro d hd _
  split
  · next signature params _ _ hkind =>
    apply (newPointer_failsOnly _ _ _).bind_meets (newPointer_meets _ _ _ s)
    intro _ t (hst : s.Creates t) _
    have hparams : ∀ p ∈ params, p < u.decls.size := fun p hp =>
      hlisted d hd p (by simpa [Decl.params, hkind] using hp)
    apply (newParameters_failsOnly (hst.wellFormed hs) hparams).bind
    exact fun _ _ _ => allocate_failsOnly _
  · next hkind =>
    have hnot : ¬ d.isFunction := by
      unfold Decl.isFunction
      split
      · next hk => exact absurd hk (hkind _ _ _ _)
      · exact Bool.false_ne_true
    constructor
    intro e t he
    cases he
    exact h d hd hnot

end Session

end CheckedPointers
