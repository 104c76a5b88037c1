import CheckedPointers.Proofs.Session.Outcome
import Mathlib.Data.List.Forall2

/-!
Two operations that go the same way. Started in related sessions, both end, both are given up or
both break a rule; and as long as no rule is broken, they leave related sessions behind.
-/
namespace CheckedPointers

/-- Both questions have an answer, and answers that belong together, or neither has one. -/
def Both {α β : Type} (J : α → β → Prop) : Except Fault α → Except Fault β → Prop
  | .ok a, .ok b => J a b
  | .error _, .error _ => True
  | _, _ => False

section

variable {α β γ δ : Type} {J : α → β → Prop} {K : γ → δ → Prop} {x : Except Fault α}
  {y : Except Fault β} {f : α → Except Fault γ} {g : β → Except Fault δ}

theorem Both.pure {a : α} {b : β} (h : J a b) : Both J (Pure.pure a) (Pure.pure b) := h

theorem Both.refl (x : Except Fault α) : Both Eq x x := by
  cases x with
  | ok a => exact rfl
  | error e => trivial

theorem Both.of_eq {x' : Except Fault α} (h : x' = x) : Both Eq x x' := h ▸ .refl x

theorem Both.mono {J' : α → β → Prop} (h : Both J x y) (hJ : ∀ a b, J a b → J' a b) :
    Both J' x y := by
  cases x <;> cases y <;> simp only [Both] at h ⊢
  exact hJ _ _ h

theorem Both.bind (h : Both J x y) (hf : ∀ a b, J a b → Both K (f a) (g b)) :
    Both K (x >>= f) (y >>= g) := by
  cases x <;> cases y <;> simp only [Both] at h
  · trivial
  · exact hf _ _ h

theorem Both.bind_eq {x x' : Except Fault α} {f : α → Except Fault γ} {g : α → Except Fault δ}
    (h : Both Eq x x') (hf : ∀ a, Both K (f a) (g a)) : Both K (x >>= f) (x' >>= g) :=
  h.bind fun a _ hab => hab ▸ hf a

theorem Both.mapM {f g : α → Except Fault γ} {l : List α} (h : ∀ a ∈ l, Both Eq (f a) (g a)) :
    Both Eq (l.mapM f) (l.mapM g) := by
  induction l with
  | nil => exact Both.pure rfl
  | cons a rest ih =>
    rw [List.mapM_cons, List.mapM_cons]
    exact (h a List.mem_cons_self).bind_eq fun b =>
      (ih fun c hc => h c (List.mem_cons_of_mem a hc)).bind_eq fun bs => Both.pure rfl

theorem Both.answered (hx : ∃ a, x = .ok a) (hy : ∃ b, y = .ok b) : Both (fun _ _ => True) x y := by
  obtain ⟨a, rfl⟩ := hx
  obtain ⟨b, rfl⟩ := hy
  trivial

/-- What is answered on one side is answered on the other. -/
theorem Both.exists_right (h : Both J x y) {a : α} (hx : x = .ok a) : ∃ b, y = .ok b ∧ J a b := by
  subst hx
  cases y with
  | error e => exact h.elim
  | ok b => exact ⟨b, rfl, h⟩

end

namespace Op

variable {α β γ δ : Type} {R : Session → Session → Prop} {J : α → β → Prop} {K : γ → δ → Prop}
  {x : Op α} {y : Op β} {f : α → Op γ} {g : β → Op δ}

/-- How two runs end: both with an answer, both given up, or both at a broken rule. The sessions
they leave are related by `R` in the first case and by `G` in the second. -/
inductive SameWay (R G : Session → Session → Prop) (J : α → β → Prop) :
    Except Failure α × Session → Except Failure β × Session → Prop where
  | ends {a b s t} (hst : R s t) (hab : J a b) : SameWay R G J (.ok a, s) (.ok b, t)
  | givenUp {e e' s t} (hst : G s t) :
    SameWay R G J (.error (.unresolved e), s) (.error (.unresolved e'), t)
  | breaks {f f' s t} : SameWay R G J (.error (.fault f), s) (.error (.fault f'), t)

/-- From sessions that `R` relates the operations go the same way, to answers that `J` relates, and
the sessions they leave are related again. -/
def Matches (R : Session → Session → Prop) (J : α → β → Prop) (x : Op α) (y : Op β) : Prop :=
  ∀ s t, R s t → SameWay R R J (x s) (y t)

/-- From sessions that `R` relates the operations go the same way, and end in sessions that `R'`
relates if they end. -/
def Leads (R R' : Session → Session → Prop) (J : α → β → Prop) (x : Op α) (y : Op β) : Prop :=
  ∀ s t, R s t → SameWay R' (fun _ _ => True) J (x s) (y t)

theorem Matches.pure {a : α} {b : β} (h : J a b) : Matches R J (Pure.pure a) (Pure.pure b) :=
  fun _ _ hst => .ends hst h

theorem Matches.unresolved {e e' : ShapeError} :
    Matches R J (unresolved e : Op α) (unresolved e' : Op β) := fun _ _ hst => .givenUp hst

theorem Matches.fault {e e' : Fault} : Matches R J (fault e : Op α) (fault e' : Op β) :=
  fun _ _ _ => .breaks

/-- Operations that go the same way can be followed by such operations. -/
theorem Matches.bind (h : Matches R J x y) (hf : ∀ a b, J a b → Matches R K (f a) (g b)) :
    Matches R K (x >>= f) (y >>= g) := by
  intro s t hst
  have h := h s t hst
  rw [bind_run, bind_run]
  generalize x s = r at h
  generalize y t = r' at h
  cases h with
  | ends hst' hab => exact hf _ _ hab _ _ hst'
  | givenUp hst' => exact .givenUp hst'
  | breaks => exact .breaks

/-- Operations that give the same answers are followed by the same. -/
theorem Matches.bind_eq {x y : Op α} {f : α → Op γ} {g : α → Op δ} (h : Matches R Eq x y)
    (hf : ∀ a, Matches R K (f a) (g a)) : Matches R K (x >>= f) (y >>= g) :=
  h.bind fun a _ hab => hab ▸ hf a

theorem Matches.bind_get {f : Session → Op γ} {g : Session → Op δ}
    (hf : ∀ s t, R s t → Matches R K (f s) (g t)) :
    Matches R K (MonadState.get >>= f) (MonadState.get >>= g) :=
  fun s t hst => hf s t hst s t hst

theorem Matches.modify {g g' : Session → Session} (h : ∀ s t, R s t → R (g s) (g' t)) :
    Matches R Eq (modify g : Op PUnit) (modify g') := fun s t hst => .ends (h s t hst) rfl

theorem Matches.modifyGet {g : Session → α × Session} {g' : Session → β × Session}
    (h : ∀ s t, R s t → R (g s).2 (g' t).2 ∧ J (g s).1 (g' t).1) :
    Matches R J (modifyGet g : Op α) (modifyGet g') :=
  fun s t hst => .ends (h s t hst).1 (h s t hst).2

theorem Matches.bind_lift {z : Except Fault α} {z' : Except Fault β} (h : Both J z z')
    (hf : ∀ a b, J a b → Matches R K (f a) (g b)) :
    Matches R K (liftM z >>= f) (liftM z' >>= g) := by
  cases z <;> cases z' <;> simp only [Both] at h
  · exact .fault
  · exact hf _ _ h

/-- The same, where it matters that the answers were given. -/
theorem Matches.bind_answer {z : Except Fault α} {z' : Except Fault β} (h : Both J z z')
    (hf : ∀ a b, z = .ok a → z' = .ok b → J a b → Matches R K (f a) (g b)) :
    Matches R K (liftM z >>= f) (liftM z' >>= g) := by
  cases z <;> cases z' <;> simp only [Both] at h
  · exact .fault
  · exact hf _ _ rfl rfl h

theorem Matches.bind_known {o : Option α} {f : α → Op γ} {g : α → Op δ} {o' : Option α}
    (h : o = o') (hf : ∀ a, Matches R K (f a) (g a)) :
    Matches R K (Op.known o >>= f) (Op.known o' >>= g) := by
  subst h
  cases o with
  | none => exact .fault
  | some a => exact hf a

theorem Matches.map {h : α → γ} {h' : β → δ} (hx : Matches R J x y)
    (hK : ∀ a b, J a b → K (h a) (h' b)) : Matches R K (h <$> x) (h' <$> y) := by
  rw [← bind_pure_comp, ← bind_pure_comp]
  exact hx.bind fun a b hab => .pure (hK a b hab)

theorem Matches.discard (h : Matches R J x y) : Matches R Eq (discard x) (discard y) :=
  h.map fun _ _ _ => rfl

/-- Nothing changes when nothing follows. -/
theorem Matches.then_pure {x : Op α} {y : Op PUnit} {J : α → PUnit → Prop} (h : Matches R J x y) :
    Matches R J x (y >>= fun _ => Pure.pure ⟨⟩) := by
  intro s t hst
  have h := h s t hst
  rw [bind_run]
  generalize x s = r at h ⊢
  generalize y t = r' at h
  cases h with
  | ends hst' hab => exact .ends hst' hab
  | givenUp hst' => exact .givenUp hst'
  | breaks => exact .breaks

theorem Matches.attempt {x y : Op PUnit} (h : Matches R Eq x y) :
    Matches R Eq (attempt x) (attempt y) := by
  intro s t hst
  have h := h s t hst
  rw [attempt_run, attempt_run]
  generalize x s = r at h
  generalize y t = r' at h
  cases h with
  | ends hst' _ => exact .ends hst' rfl
  | givenUp hst' => exact .ends hst' rfl
  | breaks => exact .breaks

theorem Matches.forM {p : α → Op PUnit} {q : β → Op PUnit} {l : List α} {l' : List β}
    (hl : List.Forall₂ J l l') (h : ∀ a b, J a b → Matches R Eq (p a) (q b)) :
    Matches R Eq (l.forM p) (l'.forM q) := by
  induction hl with
  | nil => exact .pure rfl
  | @cons a b l l' hab _ ih =>
    change Matches R Eq (p a >>= fun _ => l.forM p) (q b >>= fun _ => l'.forM q)
    exact (h a b hab).bind_eq fun _ => ih

theorem Matches.forM_eq {p q : α → Op PUnit} {l : List α}
    (h : ∀ a ∈ l, Matches R Eq (p a) (q a)) : Matches R Eq (l.forM p) (l.forM q) := by
  induction l with
  | nil => exact .pure rfl
  | cons a rest ih =>
    change Matches R Eq (p a >>= fun _ => rest.forM p) (q a >>= fun _ => rest.forM q)
    exact (h a List.mem_cons_self).bind_eq fun _ => ih fun b hb => h b (List.mem_cons_of_mem a hb)

/-! ## From one relation to another -/

section

variable {R' R'' : Session → Session → Prop}

/-- Operations that go the same way lead from related sessions to related ones. -/
theorem Matches.leads (h : Matches R J x y) : Leads R R J x y := by
  intro s t hst
  have h := h s t hst
  generalize x s = r at h ⊢
  generalize y t = r' at h ⊢
  cases h with
  | ends hst' hab => exact .ends hst' hab
  | givenUp _ => exact .givenUp trivial
  | breaks => exact .breaks

/-- The second operations start where the first ones led. -/
theorem Leads.bind (h : Leads R R' J x y) (hf : ∀ a b, J a b → Leads R' R'' K (f a) (g b)) :
    Leads R R'' K (x >>= f) (y >>= g) := by
  intro s t hst
  have h := h s t hst
  rw [bind_run, bind_run]
  generalize x s = r at h
  generalize y t = r' at h
  cases h with
  | ends hst' hab => exact hf _ _ hab _ _ hst'
  | givenUp hst' => exact .givenUp hst'
  | breaks => exact .breaks

theorem Leads.bind_eq {x y : Op α} {f : α → Op γ} {g : α → Op δ} (h : Leads R R' Eq x y)
    (hf : ∀ a, Leads R' R'' K (f a) (g a)) : Leads R R'' K (x >>= f) (y >>= g) :=
  h.bind fun a _ hab => hab ▸ hf a

theorem Leads.discard (h : Leads R R' J x y) : Leads R R' Eq (discard x) (discard y) := by
  change Leads R R' Eq ((fun _ => PUnit.unit) <$> x) ((fun _ => PUnit.unit) <$> y)
  rw [← bind_pure_comp, ← bind_pure_comp]
  exact h.bind fun _ _ _ => (Matches.pure rfl).leads

theorem Leads.bind_lift {z : Except Fault α} {z' : Except Fault β} (h : Both J z z')
    (hf : ∀ a b, J a b → Leads R R' K (f a) (g b)) :
    Leads R R' K (liftM z >>= f) (liftM z' >>= g) := by
  cases z <;> cases z' <;> simp only [Both] at h
  · exact fun _ _ _ => .breaks
  · exact hf _ _ h

/-- A run on the first side has its counterpart on the second. -/
theorem Leads.of_ends (h : Leads R R' J x y) {s t s' : Session} {a : α} (hst : R s t)
    (hx : x.Ends s a s') : ∃ b t', y.Ends t b t' ∧ R' s' t' ∧ J a b := by
  have h := h s t hst
  unfold Ends at hx ⊢
  rw [hx] at h
  generalize y t = r at h
  cases h with
  | ends hst' hab => exact ⟨_, _, rfl, hst', hab⟩

/-- A run on the second side has its counterpart on the first. -/
theorem Leads.of_ends_right (h : Leads R R' J x y) {s t t' : Session} {b : β} (hst : R s t)
    (hy : y.Ends t b t') : ∃ a s', x.Ends s a s' ∧ R' s' t' ∧ J a b := by
  have h := h s t hst
  unfold Ends at hy ⊢
  rw [hy] at h
  generalize x s = r at h
  cases h with
  | ends hst' hab => exact ⟨_, _, rfl, hst', hab⟩

end

end Op

end CheckedPointers
