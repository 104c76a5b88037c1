import CheckedPointers.Proofs.Session.Failure
import Mathlib.Logic.Relation

/-!
What an operation leaves behind however it ends. A claim about the answer of an operation says
nothing of a fault; here a run that faults may change the session in no other ways than one that
ends, since both change it by the same single steps.
-/
namespace CheckedPointers

def Frame.steps (Step : Session → Session → Prop) : Frame where
  rel s t := s.WellFormed → t.WellFormed ∧ Relation.ReflTransGen Step s t
  refl _ hs := ⟨hs, .refl⟩
  trans hst htu hs :=
    have ht := hst hs
    have hu := htu ht.1
    ⟨hu.1, ht.2.trans hu.2⟩

namespace Frame

variable {Step Step' : Session → Session → Prop} {s t : Session}

theorem steps_single (h : s.WellFormed → t.WellFormed ∧ Step s t) : (steps Step).rel s t :=
  fun hs => ⟨(h hs).1, .single (h hs).2⟩

/-- What every step keeps holds in the end, if steps keep sessions well formed. -/
theorem steps_keep {P : Session → Prop}
    (hwf : ∀ s t, s.WellFormed → Step s t → t.WellFormed)
    (hstep : ∀ s t, s.WellFormed → Step s t → P s → P t)
    (h : (steps Step).rel s t) (hs : s.WellFormed) (hP : P s) : P t := by
  have hkept : t.WellFormed ∧ P t := by
    obtain ⟨-, hsteps⟩ := h hs
    clear h
    induction hsteps with
    | refl => exact ⟨hs, hP⟩
    | tail _ hlast ih => exact ⟨hwf _ _ ih.1 hlast, hstep _ _ ih.1 hlast ih.2⟩
  exact hkept.2

theorem steps_mono (h : ∀ s t, Step s t → Step' s t) (hst : (steps Step).rel s t) :
    (steps Step').rel s t := fun hs => ⟨(hst hs).1, Relation.ReflTransGen.mono h _ _ (hst hs).2⟩

end Frame

namespace Op

variable {α β : Type} {R R' : Frame} {s t : Session} {x : Op α} {f : α → Op β}

/-- However the operation ends, it changes the session only so. -/
def Leaves (R : Frame) (x : Op α) (s : Session) : Prop := R.rel s (x s).2

theorem Leaves.of_ends {a : α} (h : Leaves R x s) (hx : x.Ends s a t) : R.rel s t := by
  unfold Ends at hx
  simpa only [Leaves, hx] using h

theorem Leaves.of_final {a : α} (hx : x.Ends s a t) (h : R.rel s t) : Leaves R x s := by
  rw [Ends] at hx
  rwa [Leaves, hx]

theorem Leaves.widen (h : Leaves R x s) (hR : ∀ t, R.rel s t → R'.rel s t) : Leaves R' x s :=
  hR _ h

/-- An operation that does not fail leaves what it leaves when it ends. -/
theorem Leaves.of_meets {Q : α → Session → Prop} (h : Meets R' x s Q)
    (hends : FailsOnly (fun _ => False) x s) (hR : ∀ a t, R'.rel s t → Q a t → R.rel s t) :
    Leaves R x s := by
  obtain ⟨a, t, hx⟩ := hends.ends
  obtain ⟨hst, ha⟩ := h.of_ends hx
  exact .of_final hx (hR a t hst ha)

/-- The steps may rely on the session being well formed. -/
theorem Leaves.intro {Step : Session → Session → Prop}
    (h : s.WellFormed → Leaves (.steps Step) x s) : Leaves (.steps Step) x s := fun hs => h hs hs

theorem Leaves.pure {a : α} : Leaves R (Pure.pure a) s := R.refl s

theorem Leaves.fault {e : Fault} : Leaves R (fault e : Op α) s := R.refl s

theorem Leaves.unresolved {e : ShapeError} : Leaves R (unresolved e : Op α) s := R.refl s

theorem Leaves.modify {g : Session → Session} (h : R.rel s (g s)) :
    Leaves R (modify g) s := h

theorem Leaves.bind (h : Leaves R x s) (hf : ∀ a t, x.Ends s a t → Leaves R (f a) t) :
    Leaves R (x >>= f) s := by
  rcases hx : x s with ⟨_ | a, t⟩ <;> simp only [Leaves, bind_run, hx] at h ⊢
  · exact h
  · exact R.trans h (hf a t hx)

theorem Leaves.bind_get {f : Session → Op β} (h : Leaves R (f s) s) :
    Leaves R (MonadState.get >>= f) s := h

theorem Leaves.bind_lift {y : Except Fault α} (h : ∀ a, y = .ok a → Leaves R (f a) s) :
    Leaves R (liftM y >>= f) s := by
  cases y with
  | error e => exact Leaves.fault
  | ok a => exact h a rfl

theorem Leaves.bind_known {o : Option α} (h : ∀ a, o = some a → Leaves R (f a) s) :
    Leaves R (Op.known o >>= f) s := by
  cases o with
  | none => exact Leaves.fault
  | some a => exact h a rfl

theorem isOpen_of_current {u : TranslationUnit} {o : OpenUnit}
    (h : (Session.current u).Ends s o t) : IsOpen u o s ∧ t = s := by
  have hanswer : Meets .visits (Session.current u) s fun o t => IsOpen u o s ∧ t = s := by
    rw [← bind_pure (Session.current u)]
    exact Meets.bind_current fun o ho => Meets.pure ⟨ho, rfl⟩
  exact (hanswer.of_ends h).2

/-- A look at the open unit is no change. -/
theorem Leaves.bind_current {u : TranslationUnit} {f : OpenUnit → Op β}
    (h : ∀ o, IsOpen u o s → Leaves R (f o) s) : Leaves R (Session.current u >>= f) s := by
  have hcurrent : Leaves R (Session.current u) s := by
    apply Leaves.bind_get
    split
    · split
      · exact Leaves.pure
      · exact Leaves.fault
    · exact Leaves.fault
  apply hcurrent.bind
  intro o t ht
  obtain ⟨ho, rfl⟩ := isOpen_of_current ht
  exact h o ho

theorem Leaves.bind_requireOpen {u : TranslationUnit} {f : PUnit → Op β}
    (h : ∀ o, IsOpen u o s → Leaves R (f ⟨⟩) s) : Leaves R (Session.requireOpen u >>= f) s := by
  have hpure : (Session.requireOpen u >>= f) = (Session.current u >>= fun _ => f ⟨⟩) := by
    rw [Session.requireOpen, bind_assoc]
    simp only [pure_bind]
  rw [hpure]
  exact Leaves.bind_current h

theorem Leaves.map {g : α → β} (h : Leaves R x s) : Leaves R (g <$> x) s := by
  rw [← bind_pure_comp]
  exact h.bind fun _ _ _ => Leaves.pure

theorem Leaves.discard (h : Leaves R x s) : Leaves R (discard x) s := h.map

theorem Leaves.attempt {x : Op PUnit} (h : Leaves R x s) : Leaves R (attempt x) s := by
  rcases hx : x s with ⟨(_ | _) | a, t⟩ <;> simp only [Leaves, attempt_run, hx] at h ⊢ <;> exact h

/-- A loop leaves what its turns leave, each of them in whatever session. -/
theorem Leaves.forM {g : α → Op PUnit} {l : List α} (h : ∀ a ∈ l, ∀ t, Leaves R (g a) t) :
    Leaves R (l.forM g) s := by
  induction l generalizing s with
  | nil => exact Leaves.pure
  | cons a rest ih =>
    change Leaves R (g a >>= fun _ => rest.forM g) s
    apply (h a List.mem_cons_self s).bind
    exact fun _ t _ => ih fun b hb => h b (List.mem_cons_of_mem a hb)

end Op

end CheckedPointers
