import CheckedPointers.Session.Basic

/-!
How an operation on a session may end. A claim about an operation names the ways in which it may
change the session, and what holds of its answer; of a fault nothing is said.
-/
namespace CheckedPointers

/-- A way in which sessions may change, by any number of changes. -/
structure Frame where
  rel : Session → Session → Prop
  refl : ∀ s, rel s s
  trans : ∀ {s t u}, rel s t → rel t u → rel s u

namespace Op

variable {α β : Type} {R R' : Frame} {s t : Session} {x : Op α} {f : α → Op β}
  {P Q : α → Session → Prop} {Q' : β → Session → Prop}

/-! ## Runs that end with an answer -/

/-- From `s` the operation ends with the answer `a` in the session `t`. -/
def Ends (x : Op α) (s : Session) (a : α) (t : Session) : Prop := x s = (.ok a, t)

theorem Ends.unique {t' : Session} {a a' : α} (h : x.Ends s a t)
    (h' : x.Ends s a' t') : a = a' ∧ t = t' := by
  unfold Ends at h h'
  rw [h] at h'
  cases h'
  exact ⟨rfl, rfl⟩

/-- An operation that shows something of its answer and of the session it leaves has ended. -/
theorem exists_ends {g : α → Session → β} {b : β}
    (h : (x s).1.toOption.map (g · (x s).2) = some b) : ∃ a t, x.Ends s a t ∧ g a t = b := by
  rcases hx : x s with ⟨_ | a, t⟩
  · rw [hx] at h
    cases h
  · rw [hx] at h
    exact ⟨a, t, hx, Option.some.inj h⟩

/-- A run that evaluates to an answer ends with it. -/
theorem exists_ends_of_run {a : α} (h : (x s).1.toOption = some a) : ∃ t, x.Ends s a t := by
  obtain ⟨b, t, hends, rfl⟩ := exists_ends (x := x) (s := s) (g := fun b _ => b) (b := a)
    (by rw [h]; rfl)
  exact ⟨t, hends⟩

theorem ends_bind {b : β} : (x >>= f).Ends s b t ↔ ∃ a u, x.Ends s a u ∧ (f a).Ends u b t := by
  unfold Ends
  rw [bind_run]
  rcases x s with ⟨_ | a, u⟩
  · exact ⟨fun h => (nomatch h), fun ⟨_, _, h, _⟩ => nomatch h⟩
  · exact ⟨fun h => ⟨a, u, rfl, h⟩, fun ⟨_, _, he, h⟩ => by cases he; exact h⟩

@[simp] theorem ends_pure {a b : α} : (pure a : Op α).Ends s b t ↔ a = b ∧ s = t :=
  ⟨fun h => by cases h; exact ⟨rfl, rfl⟩, fun ⟨h, h'⟩ => by subst h h'; rfl⟩

@[simp] theorem ends_get {u : Session} : (get : Op Session).Ends s u t ↔ s = u ∧ s = t :=
  ⟨fun h => by cases h; exact ⟨rfl, rfl⟩, fun ⟨h, h'⟩ => by subst h; subst h'; rfl⟩

@[simp] theorem ends_modify {g : Session → Session} {a : PUnit} :
    (modify g : Op PUnit).Ends s a t ↔ g s = t :=
  ⟨fun h => by cases h; rfl, fun h => by subst h; rfl⟩

@[simp] theorem ends_modifyGet {g : Session → α × Session} {a : α} :
    (modifyGet g : Op α).Ends s a t ↔ g s = (a, t) :=
  ⟨fun h => by cases h; rfl, fun h => by
    show (Except.ok (g s).1, (g s).2) = _
    rw [h]⟩

theorem lift_run (y : Except Fault α) (s : Session) :
    (liftM y : Op α) s =
      match y with
      | .ok a => (.ok a, s)
      | .error e => (.error (.fault e), s) := by
  cases y <;> rfl

theorem lift_ok_bind (a : α) (f : α → Op β) : (liftM (Except.ok a : Except Fault α) >>= f) = f a :=
  rfl

theorem lift_error_bind (e : Fault) (f : α → Op β) :
    (liftM (Except.error e : Except Fault α) >>= f) = fault e := rfl

@[simp] theorem ends_lift {y : Except Fault α} {a : α} :
    (liftM y : Op α).Ends s a t ↔ y = .ok a ∧ s = t := by
  unfold Ends
  rw [lift_run]
  cases y with
  | error e => exact ⟨fun h => (nomatch h), fun ⟨h, _⟩ => nomatch h⟩
  | ok b => exact ⟨fun h => by cases h; exact ⟨rfl, rfl⟩, fun ⟨h, h'⟩ => by cases h; subst h'; rfl⟩

@[simp] theorem not_ends_fault {e : Fault} {a : α} : ¬ (fault e : Op α).Ends s a t :=
  fun h => by cases h

@[simp] theorem not_ends_unresolved {e : ShapeError} {a : α} :
    ¬ (unresolved e : Op α).Ends s a t :=
  fun h => by cases h

@[simp] theorem ends_known {o : Option α} {a : α} :
    (known o : Op α).Ends s a t ↔ o = some a ∧ s = t := by
  cases o <;> simp [known]

theorem map_run (g : α → β) (x : Op α) (s : Session) :
    (g <$> x) s = match x s with
      | (.ok a, t) => (.ok (g a), t)
      | (.error e, t) => (.error e, t) := by
  rw [← bind_pure_comp, bind_run]
  rcases x s with ⟨_ | _, _⟩ <;> rfl

theorem ends_map {g : α → β} {b : β} : (g <$> x).Ends s b t ↔ ∃ a, x.Ends s a t ∧ g a = b := by
  rw [← bind_pure_comp, ends_bind]
  simp

@[simp] theorem ends_discard {b : PUnit} :
    Ends (discard x) s b t ↔ ∃ a, x.Ends s a t := by
  show ((fun _ => PUnit.unit) <$> x).Ends s b t ↔ _
  simp [ends_map]

/-- An attempt ends where the operation ends or gives up. -/
theorem ends_attempt {x : Op PUnit} {b : Bool} :
    (attempt x).Ends s b t ↔
      (b = true ∧ x.Ends s ⟨⟩ t) ∨ (b = false ∧ ∃ e, x s = (.error (.unresolved e), t)) := by
  unfold Ends
  rw [attempt_run]
  rcases x s with ⟨(e | e) | a, u⟩
  · exact ⟨fun h => (nomatch h), fun h => by rcases h with ⟨_, h⟩ | ⟨_, _, h⟩ <;> cases h⟩
  · exact ⟨fun h => by cases h; exact .inr ⟨rfl, e, rfl⟩,
      fun h => by rcases h with ⟨_, h⟩ | ⟨rfl, _, h⟩ <;> cases h; rfl⟩
  · exact ⟨fun h => by cases h; exact .inl ⟨rfl, rfl⟩,
      fun h => by rcases h with ⟨rfl, h⟩ | ⟨_, _, h⟩ <;> cases h; rfl⟩

/-- A loop whose steps change nothing changes nothing. -/
theorem forM_ends {g : α → Op PUnit} {l : List α} (h : ∀ a ∈ l, (g a).Ends s ⟨⟩ s) :
    (l.forM g).Ends s ⟨⟩ s := by
  induction l with
  | nil => exact ends_pure.2 ⟨rfl, rfl⟩
  | cons a rest ih =>
    obtain ⟨ha, hrest⟩ := List.forall_mem_cons.1 h
    exact ends_bind.2 ⟨⟨⟩, s, ha, ih hrest⟩

/-! ## Claims about operations -/

/-- From `s` the operation ends with an answer that `Q` admits, or gives up, in a session to which
`s` may change. -/
def Meets (R : Frame) (x : Op α) (s : Session) (Q : α → Session → Prop) : Prop :=
  match x s with
  | (.ok a, t) => R.rel s t ∧ Q a t
  | (.error (.unresolved _), t) => R.rel s t
  | (.error (.fault _), _) => True

theorem Meets.of_ends {a : α} (h : Meets R x s Q) (hx : x.Ends s a t) : R.rel s t ∧ Q a t := by
  unfold Ends at hx
  simpa only [Meets, hx] using h

theorem Meets.mono (h : Meets R x s P) (hPQ : ∀ a t, R.rel s t → P a t → Q a t) :
    Meets R x s Q := by
  rcases hx : x s with ⟨(_ | _) | a, t⟩ <;> simp only [Meets, hx] at h ⊢
  · exact h
  · exact ⟨h.1, hPQ a t h.1 h.2⟩

theorem Meets.widen (h : Meets R x s Q) (hR : ∀ t, R.rel s t → R'.rel s t) : Meets R' x s Q := by
  rcases hx : x s with ⟨(_ | _) | a, t⟩ <;> simp only [Meets, hx] at h ⊢
  · exact hR t h
  · exact ⟨hR t h.1, h.2⟩

/-- Two claims about one run. -/
theorem Meets.both (h : Meets R x s P) (h' : Meets R' x s Q) :
    Meets R x s fun a t => P a t ∧ R'.rel s t ∧ Q a t := by
  rcases hx : x s with ⟨(_ | _) | a, t⟩ <;> simp only [Meets, hx] at h h' ⊢
  · exact h
  · exact ⟨h.1, h.2, h'⟩

theorem Meets.any (h : Meets R x s Q) : Meets R x s fun _ _ => True :=
  h.mono fun _ _ _ _ => trivial

/-- How the session changed is a claim like any other. -/
theorem Meets.frame (h : Meets R x s Q) : Meets R x s fun a t => R.rel s t ∧ Q a t :=
  h.mono fun _ _ hst hq => ⟨hst, hq⟩

/-- The run itself is a claim too. -/
theorem Meets.run (h : Meets R x s Q) : Meets R x s fun a t => x.Ends s a t ∧ Q a t := by
  rcases hx : x s with ⟨(_ | _) | a, t⟩ <;> simp only [Meets, hx] at h ⊢
  · exact h
  · exact ⟨h.1, hx, h.2⟩

theorem Meets.pure {a : α} (h : Q a s) : Meets R (Pure.pure a) s Q := ⟨R.refl s, h⟩

theorem Meets.bind (h : Meets R x s P) (hf : ∀ a t, R.rel s t → P a t → Meets R (f a) t Q') :
    Meets R (x >>= f) s Q' := by
  rcases hx : x s with ⟨(_ | _) | a, t⟩ <;> simp only [Meets, bind_run, hx] at h ⊢
  · exact h
  · obtain ⟨hst, ha⟩ := h
    have hfa := hf a t hst ha
    rcases hy : f a t with ⟨(_ | _) | b, u⟩ <;> simp only [Meets, hy] at hfa ⊢
    · exact R.trans hst hfa
    · exact ⟨R.trans hst hfa.1, hfa.2⟩

theorem Meets.get {Q : Session → Session → Prop} (h : Q s s) : Meets R MonadState.get s Q :=
  ⟨R.refl s, h⟩

theorem Meets.modify {g : Session → Session} {Q : PUnit → Session → Prop} (hR : R.rel s (g s))
    (h : Q ⟨⟩ (g s)) : Meets R (modify g) s Q := ⟨hR, h⟩

theorem Meets.modifyGet {g : Session → α × Session} (hR : R.rel s (g s).2)
    (h : Q (g s).1 (g s).2) : Meets R (modifyGet g) s Q := ⟨hR, h⟩

theorem Meets.fault {e : Fault} : Meets R (fault e) s Q := trivial

theorem Meets.unresolved {e : ShapeError} : Meets R (unresolved e) s Q := R.refl s

theorem Meets.lift {y : Except Fault α} (h : ∀ a, y = .ok a → Q a s) :
    Meets R (liftM y) s Q := by
  cases y with
  | error e => exact Meets.fault
  | ok a => exact Meets.pure (h a rfl)

theorem Meets.known {o : Option α} (h : ∀ a, o = some a → Q a s) : Meets R (known o) s Q := by
  cases o with
  | none => exact Meets.fault
  | some a => exact Meets.pure (h a rfl)

theorem Meets.bind_get {f : Session → Op β} (h : Meets R (f s) s Q') :
    Meets R (MonadState.get >>= f) s Q' :=
  Meets.bind (P := fun a t => a = s ∧ t = s) (Meets.get ⟨rfl, rfl⟩)
    fun _ _ _ ⟨ha, ht⟩ => ha ▸ ht ▸ h

theorem Meets.bind_lift {y : Except Fault α} (h : ∀ a, y = .ok a → Meets R (f a) s Q') :
    Meets R (liftM y >>= f) s Q' :=
  Meets.bind (P := fun a t => y = .ok a ∧ t = s) (Meets.lift fun _ ha => ⟨ha, rfl⟩)
    fun a _ _ ⟨ha, ht⟩ => ht ▸ h a ha

theorem Meets.bind_known {o : Option α} (h : ∀ a, o = some a → Meets R (f a) s Q') :
    Meets R (Op.known o >>= f) s Q' :=
  Meets.bind (P := fun a t => o = some a ∧ t = s) (Meets.known fun _ ha => ⟨ha, rfl⟩)
    fun a _ _ ⟨ha, ht⟩ => ht ▸ h a ha

def IsOpen (u : TranslationUnit) (o : OpenUnit) (s : Session) : Prop :=
  s.opened = some o ∧ o.id = u.id ∧ o.file = u.file

theorem ends_current {u : TranslationUnit} {o : OpenUnit} (h : IsOpen u o s) :
    (Session.current u).Ends s o s := by
  refine ends_bind.2 ⟨s, s, ends_get.2 ⟨rfl, rfl⟩, ?_⟩
  simp only [h.1, if_pos h.2]
  exact ends_pure.2 ⟨rfl, rfl⟩

theorem Meets.bind_current {u : TranslationUnit} {f : OpenUnit → Op β}
    (h : ∀ o, IsOpen u o s → Meets R (f o) s Q') : Meets R (Session.current u >>= f) s Q' := by
  have hcurrent : Meets R (Session.current u) s fun o t => IsOpen u o s ∧ t = s := by
    refine Meets.bind_get ?_
    split
    · next o ho =>
      split
      · next hid => exact Meets.pure ⟨⟨ho, hid⟩, rfl⟩
      · exact Meets.fault
    · exact Meets.fault
  exact Meets.bind hcurrent fun o t _ ⟨ho, ht⟩ => ht ▸ h o ho

theorem Meets.bind_requireOpen {u : TranslationUnit} {f : PUnit → Op β}
    (h : ∀ o, IsOpen u o s → Meets R (f ⟨⟩) s Q') :
    Meets R (Session.requireOpen u >>= f) s Q' := by
  have hopen : Meets R (Session.requireOpen u) s fun _ t => (∃ o, IsOpen u o s) ∧ t = s :=
    Meets.bind_current fun o ho => Meets.pure ⟨⟨o, ho⟩, rfl⟩
  exact Meets.bind hopen fun _ t _ ⟨⟨o, ho⟩, ht⟩ => ht ▸ h o ho

theorem Meets.map {g : α → β} (h : Meets R x s fun a t => Q' (g a) t) :
    Meets R (g <$> x) s Q' := by
  rcases hx : x s with ⟨(_ | _) | a, t⟩ <;> simp only [Meets, map_run, hx] at h ⊢ <;> exact h

theorem Meets.discard {Q : PUnit → Session → Prop} (h : Meets R x s fun _ t => Q ⟨⟩ t) :
    Meets R (discard x) s Q := Meets.map h

/-- An attempt gives up where the operation does, and goes on. -/
theorem Meets.attempt {x : Op PUnit} {Q : Bool → Session → Prop}
    (h : Meets R x s fun _ t => Q true t) (hgive : ∀ t, R.rel s t → Q false t) :
    Meets R (attempt x) s Q := by
  rcases hx : x s with ⟨(_ | _) | a, t⟩ <;> simp only [Meets, attempt_run, hx] at h ⊢
  · exact ⟨h, hgive t h⟩
  · exact h

theorem Meets.attempted {x : Op PUnit} {Q : PUnit → Session → Prop} (h : Meets R x s Q) :
    Meets R (Op.attempt x) s fun _ _ => True :=
  Meets.attempt (Q := fun _ _ => True) h.any fun _ _ => trivial

/-- Whether it ends or is given up, an attempt changes the session as its operation may. -/
theorem Meets.rel_of_attempt {x : Op PUnit} {Q : PUnit → Session → Prop} {b : Bool}
    (h : Meets R x s Q) (hends : (Op.attempt x).Ends s b t) : R.rel s t :=
  (h.attempted.of_ends hends).1

/-- What each step of a loop establishes lasts if no change undoes it. -/
theorem Meets.forM {g : α → Op PUnit} {l : List α} {P : α → Session → Prop}
    (hkeep : ∀ a t u, R.rel t u → P a t → P a u)
    (h : ∀ a ∈ l, ∀ t, R.rel s t → Meets R (g a) t fun _ u => P a u) :
    Meets R (l.forM g) s fun _ t => ∀ a ∈ l, P a t := by
  induction l generalizing s with
  | nil => exact Meets.pure (by simp)
  | cons a rest ih =>
    change Meets R (g a >>= fun _ => rest.forM g) s _
    refine Meets.bind (h a List.mem_cons_self s (R.refl s)) fun _ t hst ha => ?_
    have hrest := ih fun b hb u htu => h b (List.mem_cons_of_mem a hb) u (R.trans hst htu)
    refine hrest.mono fun _ u htu hall b hb => ?_
    rcases List.mem_cons.1 hb with rfl | hb
    · exact hkeep b t u htu ha
    · exact hall b hb

end Op

end CheckedPointers
