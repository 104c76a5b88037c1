import CheckedPointers.Proofs.Analysis.Unresolved
import CheckedPointers.Proofs.Session.Bodies
import CheckedPointers.Proofs.Session.Relinking

/-!
What merging declarations adds to linking. Linking with it and linking without it go the same way
but for the equations and bounds of bodiless variants of global names; and no definition, no other
declaration, no literal and no signature made on demand owns what these speak of.
-/
namespace CheckedPointers

open Op

namespace Session

def merging (s : Session) (b : Bool) : Session :=
  { s with options := { s.options with mergeDeclarations := b } }

end Session

namespace Op

variable {α β : Type} {s t : Session} {x : Op α} {f : α → Op β} {a : α} {b : Bool}

/-- The operation does not look at whether declarations are to be merged. -/
def Indifferent (x : Op α) : Prop :=
  ∀ (s : Session) b, x (s.merging b) = ((x s).1, (x s).2.merging b)

theorem Indifferent.exists_ends (h : Indifferent x) (hx : x.Ends (s.merging b) a t) :
    ∃ r, x.Ends s a r ∧ t = r.merging b := by
  obtain ⟨hanswer, ht⟩ := Prod.ext_iff.1 ((h s b).symm.trans hx)
  exact ⟨(x s).2, Prod.ext hanswer rfl, ht.symm⟩

theorem Indifferent.pure {a : α} : Indifferent (Pure.pure a : Op α) := fun _ _ => rfl

theorem Indifferent.bind (hx : Indifferent x) (hf : ∀ a, Indifferent (f a)) :
    Indifferent (x >>= f) := by
  intro s b
  rw [bind_run, bind_run, hx]
  rcases x s with ⟨e | a, t⟩
  · rfl
  · exact hf a t b

theorem Indifferent.bind_get {f : Session → Op β} (hsame : ∀ s b, f (s.merging b) = f s)
    (hf : ∀ s, Indifferent (f s)) : Indifferent (MonadState.get >>= f) := by
  intro s b
  change f (s.merging b) (s.merging b) = _
  rw [hsame, hf]
  rfl

theorem Indifferent.bind_known {o : Option α} (hf : ∀ a, Indifferent (f a)) :
    Indifferent (known o >>= f) := by
  cases o with
  | none => exact fun _ _ => rfl
  | some a => exact hf a

theorem Indifferent.discard (h : Indifferent x) : Indifferent (discard x) := by
  rw [discard_eq]
  exact h.bind fun _ => .pure

theorem Indifferent.forM {g : α → Op PUnit} {l : List α} (h : ∀ a, Indifferent (g a)) :
    Indifferent (l.forM g) := by
  induction l with
  | nil => exact .pure
  | cons a rest ih => exact (h a).bind fun _ => ih

end Op

namespace Session

variable {s t r on off : Session} {v g : VarId} {a : Atom} {b : Bool} {options : Options}
  {u : TranslationUnit} {id : DeclId} {d : Decl}

/-! ## Two runs of linking -/

theorem BoundRecorded.mem {c : Constraint} {k : Category} (h : t.BoundRecorded k v)
    (hc : BoundOn t.arena k v c) : c ∈ t.solver.constraints := by
  obtain ⟨a, ⟨atoms, hatoms, ha⟩, rfl⟩ := hc
  obtain ⟨atoms', hatoms', hall⟩ := h
  obtain rfl := Option.some.inj (hatoms.symm.trans hatoms')
  exact (hall a ha).resolve_left (by simp [Constraint.normalized, Constraint.isTrivial])

def Forced (s : Session) (v : VarId) : Prop :=
  ∀ c, BoundOn s.arena .leastSafe v c → c ∈ s.solver.constraints

theorem Forced.records (h : s.Forced v) (hst : s.Records t) : t.Forced v := by
  intro c hc
  rw [hst.arena] at hc
  exact hst.solver.mem (h c hc)

/-- A signature that was bounded is forced as a whole. -/
theorem boundSignature_forces {f : FunctionVariable} (hs : s.WellFormed)
    (hf : s.arena.function? v = some f) :
    Meets .records (boundSignature f .leastSafe) s fun _ t => t.Forced v := by
  have hslots : Meets .records (boundSignature f .leastSafe) s fun _ t =>
      ∀ slot ∈ f.slots, ∀ p ∈ slot, t.BoundRecorded .leastSafe p :=
    Meets.forM (P := fun slot t => ∀ p ∈ slot, t.BoundRecorded .leastSafe p)
      (fun _ _ _ (htw : Session.Records _ _) h p hp => (h p hp).records htw) fun slot _ t _ =>
        Meets.discard (boundSet_stated slot .leastSafe t)
  refine hslots.mono fun _ t (hst : s.Records t) h c ⟨a, ha, hc⟩ => ?_
  rw [hst.arena] at ha
  obtain ⟨slot, hslot, p, hp, ha⟩ := (hs.arena.owns_function hf).1 ha
  exact (h slot hslot p hp).mem ⟨a, hst.arena ▸ ha, hc⟩

/-- The variants of every name that is forced have all their bounds recorded. -/
theorem boundNames_forces (names : List String) (hs : s.WellFormed) :
    Meets .records (names.forM boundName) s fun _ t =>
      ∀ name ∈ names, ∀ v ∈ s.variants name, t.Forced v := by
  refine Meets.forM (P := fun name t => ∀ v ∈ s.variants name, t.Forced v)
    (fun _ _ _ htw h v hv => (h v hv).records htw) fun name _ t (hst : s.Records t) => ?_
  refine Meets.bind_get ?_
  change Meets .records ((t.variants name).members.forM _) t _
  rw [hst.variants]
  refine Meets.forM (P := fun v t => t.Forced v) (fun _ _ _ htw h => h.records htw)
    fun v hv w (htw : t.Records w) => Meets.bind_get ?_
  have hsw : s.Records w := hst.trans htw
  obtain ⟨f, hf⟩ := Arena.isFunction_iff.1 (hs.variant hv)
  rw [hsw.arena, hf]
  exact boundSignature_forces (hsw.creates.wellFormed hs) (hsw.arena ▸ hf)

def Bodiless (s : Session) (v : VarId) : Prop := ∃ name, v ∈ bodiless s.arena (s.variants name)

theorem Records.merging (h : s.Records t) (b : Bool) : (s.merging b).Records (t.merging b) where
  solver := h.solver
  size := h.size
  only := by
    conv_lhs => rw [h.only]
    rfl

theorem Bodiless.function (h : s.Bodiless g) :
    ∃ f, s.arena.function? g = some f ∧ ¬ f.hasBody := by
  obtain ⟨name, h⟩ := h
  obtain ⟨f, hf, hbody⟩ := (Option.any_eq_true _ _).1 (List.mem_filter.1 h).2
  exact ⟨f, hf, by simpa using hbody⟩

theorem Bodiless.isFunction (h : s.Bodiless g) : s.arena.isFunction g := by
  obtain ⟨f, hf, -⟩ := h.function
  exact Arena.isFunction_iff.2 ⟨f, hf⟩

theorem Bodiless.stands (h : s.Bodiless g) (hs : Reachable options s) : s.Stands g := by
  obtain ⟨name, h⟩ := h
  exact hs.standing.variants name g (List.mem_filter.1 h).1

end Session

end CheckedPointers
