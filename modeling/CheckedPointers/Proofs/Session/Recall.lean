import CheckedPointers.Proofs.Session.Outcome

/-!
Operations that have nothing left to do once they have ended: run again in any session to which
theirs may have changed since, they give the same answer and change nothing.
-/
namespace CheckedPointers

namespace Op

variable {α β : Type} {R : Frame} {s t w : Session} {x : Op α} {f : α → Op β}
  {P Q : α → Session → Prop} {Q' : β → Session → Prop}

/-- In every session to which `t` may change the operation gives this answer and changes nothing. -/
def Replays (R : Frame) (x : Op α) (a : α) (t : Session) : Prop := ∀ w, R.rel t w → x.Ends w a w

theorem Replays.later {a : α} (h : Replays R x a t) (htw : R.rel t w) : Replays R x a w :=
  fun z hwz => h z (R.trans htw hwz)

theorem Replays.eq_of_run {a b : α} (h : Replays R x a t) (hb : (x t).1.toOption = some b) :
    a = b := by
  have ha : x t = (.ok a, t) := h t (R.refl t)
  rw [ha] at hb
  exact Option.some.inj hb

/-- From `s` the operation ends with an answer that `Q` admits, or gives up; the same answer is
given ever after. -/
def Recalls (R : Frame) (x : Op α) (s : Session) (Q : α → Session → Prop) : Prop :=
  Meets R x s fun a t => Q a t ∧ Replays R x a t

theorem Recalls.mono (h : Recalls R x s P) (hPQ : ∀ a t, R.rel s t → P a t → Q a t) :
    Recalls R x s Q :=
  Meets.mono h fun a t hst ⟨ha, hr⟩ => ⟨hPQ a t hst ha, hr⟩

theorem Recalls.pure {a : α} (h : Q a s) : Recalls R (Pure.pure a) s Q :=
  Meets.pure ⟨h, fun _ _ => ends_pure.2 ⟨rfl, rfl⟩⟩

theorem Recalls.unresolved {e : ShapeError} : Recalls R (unresolved e) s Q := Meets.unresolved

theorem Recalls.bind (h : Recalls R x s P)
    (hf : ∀ a t, R.rel s t → P a t → Recalls R (f a) t Q') : Recalls R (x >>= f) s Q' := by
  refine Meets.bind (Meets.frame h) fun a t _ ⟨hst, ha, hx⟩ => ?_
  refine Meets.mono (hf a t hst ha) fun b u htu ⟨hb, hfb⟩ => ⟨hb, fun w huw => ?_⟩
  exact ends_bind.2 ⟨a, w, hx w (R.trans htu huw), hfb w huw⟩

theorem Recalls.bind_lift {y : Except Fault α} (h : ∀ a, y = .ok a → Recalls R (f a) s Q') :
    Recalls R (liftM y >>= f) s Q' := by
  refine Recalls.bind (P := fun a t => y = .ok a ∧ t = s) ?_ fun a t _ ⟨ha, ht⟩ => ht ▸ h a ha
  exact Meets.lift fun a ha => ⟨⟨ha, rfl⟩, fun _ _ => ends_lift.2 ⟨ha, rfl⟩⟩

/-- What follows a look at the session is recalled if it would follow any later look. -/
theorem Recalls.bind_get {f : Session → Op β} (hsame : ∀ w, R.rel s w → f w = f s)
    (h : Recalls R (f s) s Q') : Recalls R (MonadState.get >>= f) s Q' := by
  refine Meets.bind_get ((Meets.frame h).mono fun b t hst ⟨_, hb, hr⟩ => ⟨hb, fun w htw => ?_⟩)
  refine ends_bind.2 ⟨w, w, ends_get.2 ⟨rfl, rfl⟩, ?_⟩
  rw [hsame w (R.trans hst htw)]
  exact hr w htw

/-- A look at the session that later looks confirm. -/
theorem Recalls.bind_get_pure {g : Session → α} (hsame : ∀ w, R.rel s w → g w = g s)
    (h : Q (g s) s) : Recalls R (do return g (← get)) s Q :=
  Recalls.bind_get (fun w hw => by rw [hsame w hw]) (Recalls.pure h)

/-- What is looked up before it is made is made once, if the table keeps it. -/
theorem Recalls.of_table (look : Session → Option α) {g : Session → Op α}
    (hlook : ∀ t a, look t = some a → g t = Pure.pure a)
    (hkept : ∀ {t w a}, R.rel t w → look t = some a → look w = some a)
    (hfound : ∀ a, look s = some a → Q a s)
    (hmade : look s = none → Meets R (g s) s fun a t => look t = some a ∧ Q a t) :
    Recalls R (MonadState.get >>= g) s Q := by
  have hagain : ∀ a t, look t = some a → Replays R (MonadState.get >>= g) a t := by
    intro a t ht w htw
    refine ends_bind.2 ⟨w, w, ends_get.2 ⟨rfl, rfl⟩, ?_⟩
    rw [hlook w a (hkept htw ht)]
    exact ends_pure.2 ⟨rfl, rfl⟩
  refine Meets.bind_get ?_
  cases hs : look s with
  | some a =>
    rw [hlook s a hs]
    exact Meets.pure ⟨hfound a hs, hagain a s hs⟩
  | none => exact (hmade hs).mono fun a t _ ⟨ht, hq⟩ => ⟨hq, hagain a t ht⟩

end Op

end CheckedPointers
