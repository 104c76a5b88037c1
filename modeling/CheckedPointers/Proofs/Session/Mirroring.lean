import CheckedPointers.Proofs.Session.Embedding
import CheckedPointers.Proofs.Session.Failure

/-!
Runs of one operation in two sessions. The first run passes on to a session in which the start of
the second stands; then the second does what the first did, and what it leaves stands there too.
-/
namespace CheckedPointers

def Frame.extending : Frame := ⟨Session.Extends, .refl, .trans⟩

def Failure.IsFault (e : Failure) : Prop := ∃ f, e = .fault f

namespace Op

open Session (Later)

variable {α β γ : Type} {R : Frame} {t t₀ t₁ s s' : Session} {ρ ρ' : Renaming} {x : Op α} {y : Op β}

theorem discard_run (x : Op α) (s : Session) : (discard x : Op PUnit) s =
    match x s with
    | (.ok _, s') => (.ok ⟨⟩, s')
    | (.error e, s') => (.error e, s') := map_run _ x s

theorem requireOpen_ends {u : TranslationUnit} {o : OpenUnit} (ho : IsOpen u o s) :
    Session.requireOpen u s = (.ok ⟨⟩, s) :=
  ends_bind.2 ⟨o, s, ends_current ho, ends_pure.2 ⟨rfl, rfl⟩⟩

/-- Whether the unit is open or not, the session stays as it is. -/
theorem requireOpen_run (u : TranslationUnit) (s : Session) :
    Session.requireOpen u s = (.ok ⟨⟩, s) ∨
      ∃ e, Session.requireOpen u s = (.error (.fault e), s) := by
  have hcurrent : (∃ o, Session.current u s = (.ok o, s)) ∨
      ∃ e, Session.current u s = (.error (.fault e), s) := by
    rw [Session.current, bind_run, get_run]
    rcases ho : s.opened with _ | o <;> simp only [ho]
    · exact .inr ⟨_, rfl⟩
    · by_cases h : o.id = u.id ∧ o.file = u.file
      · simp only [if_pos h]
        exact .inl ⟨_, rfl⟩
      · simp only [if_neg h]
        exact .inr ⟨_, rfl⟩
  rw [Session.requireOpen, bind_run]
  rcases hcurrent with ⟨o, h⟩ | ⟨e, h⟩
  · rw [h]
    exact .inl rfl
  · rw [h]
    exact .inr ⟨e, rfl⟩

/-! ## The second run -/

/-- From `s`, which stands in `t`, the operation ends in a session that stands there too, with an
answer that `J` admits. -/
def Fits (t : Session) (y : Op β) (ρ : Renaming) (s : Session)
    (J : β → Renaming → Session → Prop) : Prop :=
  ∃ b ρ' s', y.Ends s b s' ∧ s'.Embeds ρ' t ∧ Later ρ ρ' s s' ∧ J b ρ' s'

/-- From `s`, which stands in `t`, the operation is given up in a session that stands there too. -/
def GivesUp (t : Session) (y : Op β) (ρ : Renaming) (s : Session) (e : ShapeError) : Prop :=
  ∃ ρ' s', y s = (.error (.unresolved e), s') ∧ s'.Embeds ρ' t ∧ Later ρ ρ' s s'

section

variable {g : β → Op γ} {J J' : β → Renaming → Session → Prop} {K : γ → Renaming → Session → Prop}

theorem Fits.mono (h : Fits t y ρ s J)
    (hJ : ∀ b ρ' s', s'.Embeds ρ' t → Later ρ ρ' s s' → J b ρ' s' → J' b ρ' s') :
    Fits t y ρ s J' := by
  obtain ⟨b, ρ', s', hy, he, hl, hb⟩ := h
  exact ⟨b, ρ', s', hy, he, hl, hJ b ρ' s' he hl hb⟩

/-- A claim about the operation holds of this run of it. -/
theorem Fits.meets {P : β → Session → Prop} (h : Fits t y ρ s J) (hm : Meets R y s P) :
    Fits t y ρ s fun b ρ' s' => J b ρ' s' ∧ R.rel s s' ∧ P b s' := by
  obtain ⟨b, ρ', s', hy, he, hl, hb⟩ := h
  exact ⟨b, ρ', s', hy, he, hl, hb, hm.of_ends hy⟩

theorem Fits.pure {b : β} (h : s.Embeds ρ t) (hb : J b ρ s) : Fits t (Pure.pure b) ρ s J :=
  ⟨b, ρ, s, ends_pure.2 ⟨rfl, rfl⟩, h, .refl ρ s, hb⟩

theorem Fits.bind (hy : Fits t y ρ s J) (hg : ∀ b ρ' s', s'.Embeds ρ' t → Later ρ ρ' s s' →
    J b ρ' s' → Fits t (g b) ρ' s' K) : Fits t (y >>= g) ρ s K := by
  obtain ⟨b, ρ₁, s₁, hy, he, hl, hb⟩ := hy
  obtain ⟨c, ρ₂, s₂, hc, he', hl', hk⟩ := hg b ρ₁ s₁ he hl hb
  exact ⟨c, ρ₂, s₂, ends_bind.2 ⟨b, s₁, hy, hc⟩, he', hl.trans hl', hk⟩

theorem Fits.bind_get {g : Session → Op γ} (h : Fits t (g s) ρ s K) :
    Fits t (MonadState.get >>= g) ρ s K := h

theorem Fits.bind_known {o : Option β} {b : β} (ho : o = some b) (h : Fits t (g b) ρ s K) :
    Fits t (Op.known o >>= g) ρ s K := by
  rw [ho]
  exact h

theorem Fits.bind_lift {ε : Type} {z : Except Fault ε} {c : ε} {g : ε → Op γ} (hz : z = .ok c)
    (h : Fits t (g c) ρ s K) : Fits t (liftM z >>= g) ρ s K := by
  rw [hz]
  exact h

theorem Fits.bind_modify {g : Session → Session} {f : PUnit → Op γ} {P : PUnit → Session → Prop}
    (hm : Meets .visits (modify g) s P) (he : (g s).Embeds ρ t) (h : Fits t (f ⟨⟩) ρ (g s) K) :
    Fits t (modify g >>= f) ρ s K := by
  have hst : s.Visits (g s) := hm.1
  exact Fits.bind (J := fun _ ρ' s' => ρ' = ρ ∧ s' = g s)
    ⟨⟨⟩, ρ, g s, ends_modify.2 rfl, he, hst.toFollows.later ρ, rfl, rfl⟩
    fun _ _ _ _ _ ⟨hρ, hs⟩ => hρ ▸ hs ▸ h

theorem Fits.bind_current {u : TranslationUnit} {o : OpenUnit} {g : OpenUnit → Op γ}
    (ho : IsOpen u o s) (h : Fits t (g o) ρ s K) : Fits t (Session.current u >>= g) ρ s K := by
  obtain ⟨c, ρ', s', hends, hrest⟩ := h
  exact ⟨c, ρ', s', ends_bind.2 ⟨o, s, ends_current ho, hends⟩, hrest⟩

theorem Fits.bind_requireOpen {u : TranslationUnit} {o : OpenUnit} {g : PUnit → Op γ}
    (ho : IsOpen u o s) (h : Fits t (g ⟨⟩) ρ s K) :
    Fits t (Session.requireOpen u >>= g) ρ s K := by
  obtain ⟨c, ρ', s', hends, hrest⟩ := h
  exact ⟨c, ρ', s', ends_bind.2 ⟨⟨⟩, s, requireOpen_ends ho, hends⟩, hrest⟩

theorem Fits.discard {J : PUnit → Renaming → Session → Prop}
    (h : Fits t y ρ s fun _ ρ' s' => J ⟨⟩ ρ' s') : Fits t (discard y) ρ s J := by
  obtain ⟨b, ρ', s', hy, he, hl, hb⟩ := h
  exact ⟨⟨⟩, ρ', s', ends_discard.2 ⟨b, hy⟩, he, hl, hb⟩

theorem Fits.map {g : β → γ} (h : Fits t y ρ s fun b ρ' s' => K (g b) ρ' s') :
    Fits t (g <$> y) ρ s K := by
  obtain ⟨b, ρ', s', hy, he, hl, hb⟩ := h
  exact ⟨g b, ρ', s', ends_map.2 ⟨b, hy, rfl⟩, he, hl, hb⟩

/-- The operation only records, and nothing that is not recorded in `t`. -/
def Notes (t : Session) (y : Op β) (ρ : Renaming) (s : Session) : Prop :=
  Fits t y ρ s fun _ ρ' s' => ρ' = ρ ∧ s.Records s'

theorem Notes.bind (hy : Notes t y ρ s)
    (hg : ∀ b s', s'.Embeds ρ t → s.Records s' → Notes t (g b) ρ s') :
    Notes t (y >>= g) ρ s := by
  refine Fits.bind hy fun b ρ' s' he _ hs => ?_
  obtain ⟨rfl, hs⟩ := hs
  exact (hg b s' he hs).mono fun _ _ _ _ _ h => ⟨h.1, hs.trans h.2⟩

theorem Notes.pure {b : β} (h : s.Embeds ρ t) : Notes t (Pure.pure b) ρ s :=
  Fits.pure h ⟨rfl, .refl s⟩

theorem Notes.discard (h : Notes t y ρ s) : Notes t (discard y) ρ s := Fits.discard h

theorem Notes.forM {g : γ → Op PUnit} {l : List γ} (h : s.Embeds ρ t)
    (hg : ∀ c ∈ l, ∀ s', s'.Embeds ρ t → s.Records s' → Notes t (g c) ρ s') :
    Notes t (l.forM g) ρ s := by
  induction l generalizing s with
  | nil => exact Notes.pure h
  | cons c rest ih =>
    change Notes t (g c >>= fun _ => rest.forM g) ρ s
    refine (hg c List.mem_cons_self s h (.refl s)).bind fun _ s' he hs => ?_
    exact ih he fun d hd z hz hsz => hg d (List.mem_cons_of_mem c hd) z hz (hs.trans hsz)

end

/-! ## Both runs -/

/-- Where the first run ends or is given up in a session that passes on to `t`, so does the second
one from `s`, which stands in `t`; and it leaves a session that stands there. -/
def Mirrors (R : Frame) (t : Session) (x : Op α) (t₀ : Session) (y : Op β) (ρ : Renaming)
    (s : Session) (J : α → β → Renaming → Session → Prop) : Prop :=
  match x t₀ with
  | (.ok a, t₁) => R.rel t₁ t → Fits t y ρ s (J a)
  | (.error (.unresolved e), t₁) => R.rel t₁ t → GivesUp t y ρ s e
  | (.error (.fault _), _) => True

section

variable {δ : Type} {f : α → Op γ} {g : β → Op δ} {J J' : α → β → Renaming → Session → Prop}
  {K : γ → δ → Renaming → Session → Prop} {P : α → Session → Prop}

theorem Mirrors.of_ends {a : α} (h : Mirrors R t x t₀ y ρ s J) (hx : x.Ends t₀ a t₁)
    (ht : R.rel t₁ t) : Fits t y ρ s (J a) := by
  rw [Mirrors, hx] at h
  exact h ht

theorem Mirrors.mono (h : Mirrors R t x t₀ y ρ s J)
    (hJ : ∀ a b ρ' s', s'.Embeds ρ' t → Later ρ ρ' s s' → J a b ρ' s' → J' a b ρ' s') :
    Mirrors R t x t₀ y ρ s J' := by
  rcases hx : x t₀ with ⟨(_ | _) | a, t₁⟩ <;> simp only [Mirrors, hx] at h ⊢
  · exact h
  · exact fun ht => (h ht).mono (hJ a)

/-- The session in which the first run starts passes on to `t` as well. -/
theorem Mirrors.of_rel (hm : Meets R x t₀ P) (h : R.rel t₀ t → Mirrors R t x t₀ y ρ s J) :
    Mirrors R t x t₀ y ρ s J := by
  rcases hx : x t₀ with ⟨(_ | _) | a, t₁⟩ <;> simp only [Meets, Mirrors, hx] at hm h ⊢
  · exact fun ht => h (R.trans hm ht) ht
  · exact fun ht => h (R.trans hm.1 ht) ht

/-- What the first run establishes for good can be relied on. -/
theorem Mirrors.meets {Q : α → Prop} (h : Mirrors R t x t₀ y ρ s J) (hm : Meets R x t₀ P)
    (hP : ∀ a t₁, R.rel t₀ t₁ → R.rel t₁ t → P a t₁ → Q a) :
    Mirrors R t x t₀ y ρ s fun a b ρ' s' => Q a ∧ J a b ρ' s' := by
  rcases hx : x t₀ with ⟨(_ | _) | a, t₁⟩ <;> simp only [Meets, Mirrors, hx] at hm h ⊢
  · exact h
  · exact fun ht => (h ht).mono fun _ _ _ _ _ hJ => ⟨hP a t₁ hm.1 ht hm.2, hJ⟩

/-- It is enough to know how the first run ends. -/
theorem Mirrors.of_fits (hx : FailsOnly Failure.IsFault x t₀)
    (h : ∀ a t₁, x.Ends t₀ a t₁ → R.rel t₁ t → Fits t y ρ s (J a)) :
    Mirrors R t x t₀ y ρ s J := by
  rcases hr : x t₀ with ⟨(_ | e) | a, t₁⟩ <;> simp only [Mirrors, hr]
  · obtain ⟨f, hf⟩ := hx.of_error _ _ hr
    cases hf
  · exact h a t₁ hr

theorem Mirrors.pure {a : α} {b : β} (h : s.Embeds ρ t) (hJ : J a b ρ s) :
    Mirrors R t (Pure.pure a) t₀ (Pure.pure b) ρ s J := fun _ => Fits.pure h hJ

theorem Mirrors.unresolved {e : ShapeError} (h : s.Embeds ρ t) :
    Mirrors R t (Op.unresolved e : Op α) t₀ (Op.unresolved e : Op β) ρ s J :=
  fun _ => ⟨ρ, s, rfl, h, .refl ρ s⟩

theorem Mirrors.fault {e : Fault} : Mirrors R t (Op.fault e : Op α) t₀ y ρ s J := trivial

/-- Mirrored operations follow one another: the second one starts under names that may have grown.
-/
theorem Mirrors.bind (hm : Meets R x t₀ P) (hx : Mirrors R t x t₀ y ρ s J)
    (hf : ∀ a t₁, R.rel t₀ t₁ → P a t₁ → Meets R (f a) t₁ fun _ _ => True)
    (h : ∀ a t₁ b ρ' s', R.rel t₀ t₁ → P a t₁ → R.rel t₁ t → s'.Embeds ρ' t → Later ρ ρ' s s' →
      J a b ρ' s' → Mirrors R t (f a) t₁ (g b) ρ' s' K) :
    Mirrors R t (x >>= f) t₀ (y >>= g) ρ s K := by
  rcases hr : x t₀ with ⟨(_ | e) | a, t₁⟩ <;> simp only [Meets, Mirrors, bind_run, hr] at hm hx ⊢
  · intro ht
    obtain ⟨ρ', s', hy, he, hl⟩ := hx ht
    exact ⟨ρ', s', by rw [bind_run, hy], he, hl⟩
  · have hfa := hf a t₁ hm.1 hm.2
    rcases hr' : f a t₁ with ⟨(_ | e) | c, t₂⟩ <;> simp only [Meets, hr'] at hfa ⊢
    · intro ht
      have ht₁ := R.trans hfa ht
      obtain ⟨b, ρ₁, s₁, hy, he, hl, hb⟩ := hx ht₁
      have hg := h a t₁ b ρ₁ s₁ hm.1 hm.2 ht₁ he hl hb
      simp only [Mirrors, hr'] at hg
      obtain ⟨ρ₂, s₂, hg, he', hl'⟩ := hg ht
      have hy : y s = (.ok b, s₁) := hy
      exact ⟨ρ₂, s₂, by rw [bind_run, hy]; exact hg, he', hl.trans hl'⟩
    · intro ht
      have ht₁ := R.trans hfa.1 ht
      refine Fits.bind (hx ht₁) fun b ρ₁ s₁ he hl hb => ?_
      have hg := h a t₁ b ρ₁ s₁ hm.1 hm.2 ht₁ he hl hb
      simp only [Mirrors, hr'] at hg
      exact hg ht

theorem Mirrors.bind_get {f : Session → Op γ} {g : Session → Op δ}
    (h : Mirrors R t (f t₀) t₀ (g s) ρ s K) :
    Mirrors R t (MonadState.get >>= f) t₀ (MonadState.get >>= g) ρ s K := h

theorem Mirrors.bind_lift {ε : Type} {z : Except Fault ε} {f : ε → Op γ} {g : ε → Op δ}
    (h : ∀ c, z = .ok c → Mirrors R t (f c) t₀ (g c) ρ s K) :
    Mirrors R t (liftM z >>= f) t₀ (liftM z >>= g) ρ s K := by
  cases z with
  | error e => trivial
  | ok c => exact h c rfl

/-- The unit is open in `t`, so it is open in `s`. -/
theorem Mirrors.bind_requireOpen {u : TranslationUnit} {f : PUnit → Op γ} {g : PUnit → Op δ}
    (hopen : ∃ o, IsOpen u o s) (h : Mirrors R t (f ⟨⟩) t₀ (g ⟨⟩) ρ s K) :
    Mirrors R t (Session.requireOpen u >>= f) t₀ (Session.requireOpen u >>= g) ρ s K := by
  obtain ⟨o, ho⟩ := hopen
  rcases requireOpen_run u t₀ with hx | ⟨e, hx⟩
  · have hy : (Session.requireOpen u >>= g) s = g ⟨⟩ s := by
      rw [bind_run, requireOpen_ends ho]
    have hx : (Session.requireOpen u >>= f) t₀ = f ⟨⟩ t₀ := by rw [bind_run, hx]
    rw [Mirrors, hx]
    rcases hr : f ⟨⟩ t₀ with ⟨(_ | _) | a, t₁⟩ <;> simp only [Mirrors, hr] at h ⊢
    · exact fun ht => (h ht).imp fun ρ' ⟨s', hends, hrest⟩ => ⟨s', hy.trans hends, hrest⟩
    · intro ht
      obtain ⟨b, ρ', s', hends, hrest⟩ := h ht
      exact ⟨b, ρ', s', hy.trans hends, hrest⟩
  · rw [Mirrors, bind_run, hx]
    trivial

theorem Mirrors.discard {J : PUnit → PUnit → Renaming → Session → Prop}
    (h : Mirrors R t x t₀ y ρ s fun _ _ ρ' s' => J ⟨⟩ ⟨⟩ ρ' s') :
    Mirrors R t (discard x) t₀ (discard y) ρ s J := by
  rcases hr : x t₀ with ⟨(_ | e) | a, t₁⟩ <;> simp only [Mirrors, discard_run, hr] at h ⊢
  · intro ht
    obtain ⟨ρ', s', hy, he, hl⟩ := h ht
    exact ⟨ρ', s', by rw [discard_run, hy], he, hl⟩
  · exact fun ht => (h ht).discard

end

/-! ## Operations that are never given up -/

def Persists (x : Op α) : Prop := ∀ s, FailsOnly Failure.IsFault x s

section

variable {f : α → Op γ}

theorem Persists.pure {a : α} : Persists (Pure.pure a) := fun _ => .pure

theorem Persists.fault {e : Fault} : Persists (Op.fault e : Op α) :=
  fun _ => ⟨fun _ _ h => by cases h; exact ⟨e, rfl⟩⟩

theorem Persists.bind (hx : Persists x) (hf : ∀ a, Persists (f a)) : Persists (x >>= f) :=
  fun s => (hx s).bind fun a t _ => hf a t

theorem Persists.bind_get {f : Session → Op γ} (hf : ∀ s, Persists (f s)) :
    Persists (MonadState.get >>= f) := fun s => FailsOnly.bind_get (hf s s)

theorem Persists.of_modify {g : Session → Session} : Persists (modify g : Op PUnit) :=
  fun _ => .of_ends (a := ⟨⟩) (ends_modify.2 rfl)

theorem Persists.bind_modify {g : Session → Session} {f : PUnit → Op γ} (hf : Persists (f ⟨⟩)) :
    Persists (modify g >>= f) := fun s => ⟨(hf (g s)).of_error⟩

theorem Persists.bind_lift {ε : Type} {z : Except Fault ε} {f : ε → Op γ}
    (hf : ∀ c, z = .ok c → Persists (f c)) : Persists (liftM z >>= f) := by
  cases z with
  | error e => exact .fault
  | ok c => exact hf c rfl

theorem Persists.bind_known {o : Option β} {f : β → Op γ} (hf : ∀ b, o = some b → Persists (f b)) :
    Persists (Op.known o >>= f) := by
  cases o with
  | none => exact .fault
  | some b => exact hf b rfl

theorem Persists.bind_current {u : TranslationUnit} {f : OpenUnit → Op γ}
    (hf : ∀ o, Persists (f o)) : Persists (Session.current u >>= f) := by
  refine Persists.bind (Persists.bind_get fun s => ?_) hf
  split
  · split
    · exact .pure
    · exact .fault
  · exact .fault

theorem Persists.bind_requireOpen {u : TranslationUnit} {f : PUnit → Op γ} (hf : Persists (f ⟨⟩)) :
    Persists (Session.requireOpen u >>= f) :=
  Persists.bind (Persists.bind_current fun _ => .pure) fun _ => hf

theorem Persists.discard (hx : Persists x) : Persists (discard x) := fun s => (hx s).discard

theorem Persists.forM {g : γ → Op PUnit} {l : List γ} (h : ∀ c ∈ l, Persists (g c)) :
    Persists (l.forM g) := by
  induction l with
  | nil => exact .pure
  | cons c rest ih =>
    change Persists (g c >>= fun _ => rest.forM g)
    exact (h c List.mem_cons_self).bind fun _ => ih fun d hd => h d (List.mem_cons_of_mem c hd)

end

end Op

open Op

namespace Session

variable {α β : Type} {R : Frame} {t t₀ t₁ s s' : Session} {ρ ρ' : Renaming}

/-! ## Recording -/

theorem addConstraint_persists (c : Constraint) : Persists (addConstraint c) := by
  intro s
  constructor
  intro e t h
  rw [addConstraint_run] at h
  split at h <;> cases h
  exact ⟨_, rfl⟩

theorem boundAtoms_persists (c : Category) (atoms : List Atom) : Persists (boundAtoms c atoms) := by
  induction atoms with
  | nil => exact .pure
  | cons a rest ih => exact (addConstraint_persists _).bind fun _ => ih.bind fun _ => .pure

theorem boundBelow_persists (v : VarId) (c : Category) : Persists (boundBelow v c) :=
  Persists.bind_get fun _ => Persists.bind_known fun atoms _ => boundAtoms_persists c atoms

theorem boundSet_persists (set : VarSet) (c : Category) : Persists (boundSet set c) := by
  suffices h : ∀ vs, Persists (boundAll c vs) from h set.members
  intro vs
  induction vs with
  | nil => exact .pure
  | cons v rest ih => exact (boundBelow_persists v c).bind fun _ => ih.bind fun _ => .pure

theorem equateSets_persists (x y : VarSet) : Persists (equateSets x y) :=
  Persists.forM fun _ _ => Persists.forM fun _ _ => Persists.bind_get fun _ =>
    Persists.bind_known fun _ _ => Persists.forM fun _ _ => (addConstraint_persists _).discard

theorem BoundRecorded.extends {c : Category} {v : VarId} (h : s.BoundRecorded c v)
    (hst : s.Extends t) : t.BoundRecorded c v := by
  obtain ⟨atoms, hatoms, ha⟩ := h
  exact ⟨atoms, hst.arena.atomsWithin_eq hatoms, fun a hmem => (ha a hmem).grows hst.solver⟩

/-- Atoms that recorded equations name count as one. -/
def same (s : Session) (a b : Atom) : Prop := s.solver.Says (.equal a b)

theorem EquationsRecorded.coincide {a b : VarId} (h : s.EquationsRecorded a b)
    (hst : s.Extends t) : t.arena.Coincide t.same a b := by
  obtain ⟨eqs, heqs, he⟩ := h
  have hc : s.arena.Coincide s.same a b := Arena.equatesWithin _ heqs he
  exact hc.imp hst.arena fun _ _ hsame => hsame.grows hst.solver

theorem addConstraint_notes (h : s.Embeds ρ t) {c : Constraint}
    (hc : c.Known s.solver.cells.size) (hsaid : t.solver.Says (c.rename ρ)) :
    Notes t (addConstraint c) ρ s := by
  obtain ⟨b, s', hends⟩ := addConstraint_ends hc
  obtain ⟨hs, hsolver, -⟩ := known_of_addConstraint hends
  have hs' : s' = { s with solver := (s.solver.add c).2 } := by rw [hs.only, hsolver]
  exact ⟨b, ρ, s', hends, hs' ▸ h.record hc hsaid, hs.creates.visits.toFollows.later ρ, rfl, hs⟩

theorem boundAtoms_notes (h : s.Embeds ρ t) {c : Category} {atoms : List Atom}
    (hknown : ∀ a ∈ atoms, a < s.solver.cells.size)
    (hsaid : ∀ a ∈ atoms, t.solver.Says (.atLeast (ρ.atom a) c)) :
    Notes t (boundAtoms c atoms) ρ s := by
  induction atoms generalizing s with
  | nil => exact .pure h
  | cons a rest ih =>
    refine (addConstraint_notes h (c := .atLeast a c) (hknown a List.mem_cons_self)
      (hsaid a List.mem_cons_self)).bind fun _ s' he hs => ?_
    exact (ih he (fun b hb => hs.size ▸ hknown b (List.mem_cons_of_mem a hb)) fun b hb =>
      hsaid b (List.mem_cons_of_mem a hb)).bind fun _ _ he' _ => .pure he'

theorem boundBelow_notes (h : s.Embeds ρ t) {c : Category} {v : VarId} (hv : v < s.arena.size)
    (ht : t.BoundRecorded c (ρ.var v)) : Notes t (boundBelow v c) ρ s := by
  obtain ⟨atoms, hatoms, hknown⟩ := h.wellFormed.arena.exists_atoms hv
  obtain ⟨atoms', hatoms', hsaid⟩ := ht
  obtain rfl := h.arena.atoms_eq hatoms hatoms'
  exact Fits.bind_get (Fits.bind_known hatoms (boundAtoms_notes h hknown fun a ha =>
    hsaid _ (List.mem_map_of_mem ha)))

/-- Bounds on variables of a set are no news where they are recorded. -/
theorem boundSet_notes (h : s.Embeds ρ t) {c : Category} {set : VarSet} (hset : Holds set s)
    (ht : ∀ v ∈ set, t.BoundRecorded c (ρ.var v)) : Notes t (boundSet set c) ρ s := by
  suffices hall : ∀ vs, (∀ v ∈ vs, v < s.arena.size ∧ t.BoundRecorded c (ρ.var v)) →
      Notes t (boundAll c vs) ρ s from hall set.members fun v hv => ⟨hset v hv, ht v hv⟩
  intro vs hvs
  induction vs generalizing s with
  | nil => exact .pure h
  | cons v rest ih =>
    obtain ⟨⟨hv, hbound⟩, hrest⟩ := List.forall_mem_cons.1 hvs
    refine (boundBelow_notes h hv hbound).bind fun _ s' he hs => ?_
    exact (ih he (fun w hw => hs.arena ▸ hset w hw) fun w hw => hs.arena ▸ hrest w hw).bind
      fun _ _ he' _ => .pure he'

/-- Equations are no news where the variables coincide. -/
theorem equate_notes (h : s.Embeds ρ t) (ht : t.WellFormed) {a b : VarId} (ha : a < s.arena.size)
    (hb : b < s.arena.size) (hc : t.arena.Coincide t.same (ρ.var a) (ρ.var b)) :
    Notes t (equate a b) ρ s := by
  obtain ⟨eqs, heqs, hknown⟩ := h.wellFormed.arena.exists_equations ha hb
  have hsaid := h.arena.yields ht.arena (ConstraintSystem.says_self t.solver)
    ConstraintSystem.Says.symm _ heqs hc
  refine Fits.bind_get (Fits.bind_known heqs (Notes.forM h fun e he s' hs' hs => ?_))
  have hk : (Constraint.equal e.1 e.2).Known s'.solver.cells.size := hs.size ▸ hknown e he
  exact (addConstraint_notes hs' hk (hsaid e he)).discard

theorem equateSets_notes (h : s.Embeds ρ t) (ht : t.WellFormed) {x y : VarSet} (hx : Holds x s)
    (hy : Holds y s)
    (hc : ∀ a ∈ x, ∀ b ∈ y, t.arena.Coincide t.same (ρ.var a) (ρ.var b)) :
    Notes t (equateSets x y) ρ s :=
  Notes.forM h fun a ha _ h₁ hs₁ => Notes.forM h₁ fun b hb _ h₂ hs₂ =>
    have hs := hs₁.trans hs₂
    equate_notes h₂ ht (hs.arena ▸ hx a ha) (hs.arena ▸ hy b hb) (hc a ha b hb)

/-- What is bounded in the first run is bounded in the second. -/
theorem boundSet_mirrors (h : s.Embeds ρ t) {c : Category} {set set' : VarSet} (hset : Holds set s)
    (himages : set.Images ρ set') (hR : ∀ t₁, t₀.Records t₁ → R.rel t₁ t → t₁.Extends t) :
    Mirrors R t (discard (boundSet set' c)) t₀ (discard (boundSet set c)) ρ s
      fun _ _ ρ' s' => ρ' = ρ ∧ s.Records s' := by
  refine Mirrors.of_fits (boundSet_persists set' c t₀).discard fun _ t₁ hends ht₁ => ?_
  obtain ⟨_, hends⟩ := ends_discard.1 hends
  obtain ⟨hrecords, hbound⟩ := (boundSet_stated set' c t₀).of_ends hends
  have hext := hR t₁ hrecords ht₁
  exact (boundSet_notes h hset fun v hv =>
    (hbound _ ((himages _).2 ⟨v, hv, rfl⟩)).extends hext).discard

/-- What is equated in the first run is equated in the second. -/
theorem equateSets_mirrors (h : s.Embeds ρ t) (ht : t.WellFormed) {x x' y y' : VarSet}
    (hx : Holds x s) (hy : Holds y s) (hxx' : x.Images ρ x') (hyy' : y.Images ρ y')
    (hR : ∀ t₁, t₀.Records t₁ → R.rel t₁ t → t₁.Extends t) :
    Mirrors R t (equateSets x' y') t₀ (equateSets x y) ρ s
      fun _ _ ρ' s' => ρ' = ρ ∧ s.Records s' := by
  refine Mirrors.of_fits (equateSets_persists x' y' t₀) fun _ t₁ hends ht₁ => ?_
  obtain ⟨hrecords, hequated⟩ := (equateSets_stated x' y' t₀).of_ends hends
  have hext := hR t₁ hrecords ht₁
  exact equateSets_notes h ht hx hy fun a ha b hb =>
    (hequated _ ((hxx' _).2 ⟨a, ha, rfl⟩) _ ((hyy' _).2 ⟨b, hb, rfl⟩)).coincide hext

end Session

end CheckedPointers
