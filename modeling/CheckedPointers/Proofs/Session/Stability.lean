import CheckedPointers.Proofs.Session.Progress
import CheckedPointers.Proofs.Session.Sparing

/-!
Looking twice is looking once. While a unit stays open, what was answered of it is answered again,
and what was given up is given up again, with nothing left to do: every look finds what the first
one made, down to the point where that one stopped.
-/
namespace CheckedPointers

open Op

namespace Op

variable {α β : Type} {R : Frame} {s t w : Session} {x : Op α} {f : α → Op β}
  {P : α → Session → Prop} {u : TranslationUnit}

def Answered (r : Except Failure α) : Prop := ∀ f, r ≠ .error (.fault f)

/-- What comes out of the operation from `s` comes out of it ever after, and then nothing is
changed; of a fault nothing is said. -/
def Settles (R : Frame) (x : Op α) (s : Session) : Prop :=
  ∀ r t, x s = (r, t) → Answered r → R.rel s t ∧ ∀ w, R.rel t w → x w = (r, w)

theorem Settles.pure {a : α} : Settles R (Pure.pure a) s := by
  rintro r t ⟨⟩ -
  exact ⟨R.refl s, fun _ _ => rfl⟩

theorem Settles.unresolved {e : ShapeError} : Settles R (unresolved e : Op α) s := by
  rintro r t ⟨⟩ -
  exact ⟨R.refl s, fun _ _ => rfl⟩

theorem Settles.fault {e : Fault} : Settles R (fault e : Op α) s := by
  rintro r t ⟨⟩ hr
  exact absurd rfl (hr e)

/-- Either the first operation is given up again, or what follows it is settled. -/
theorem Settles.bind (h : Settles R x s) (hf : ∀ a t, x.Ends s a t → Settles R (f a) t) :
    Settles R (x >>= f) s := by
  intro r t hr hanswered
  rw [bind_run] at hr
  rcases hx : x s with ⟨e | a, z⟩
  · rw [hx] at hr
    cases hr
    have he : Answered (.error e : Except Failure α) := fun g hg =>
      hanswered g (congrArg Except.error (Except.error.inj hg))
    obtain ⟨hst, hagain⟩ := h _ _ hx he
    exact ⟨hst, fun w hw => by rw [bind_run, hagain w hw]⟩
  · rw [hx] at hr
    obtain ⟨hsz, hagain⟩ := h _ _ hx nofun
    obtain ⟨hzt, hagain'⟩ := hf a z hx r t hr hanswered
    refine ⟨R.trans hsz hzt, fun w hw => ?_⟩
    rw [bind_run, hagain w (R.trans hzt hw)]
    exact hagain' w hw

/-- What follows may rely on what is recalled of the first operation. -/
theorem Settles.bind_recalls (h : Settles R x s) (hm : Recalls R x s P)
    (hf : ∀ a t, R.rel s t → P a t → Settles R (f a) t) : Settles R (x >>= f) s :=
  h.bind fun a t ha => hf a t (hm.of_ends ha).1 (hm.of_ends ha).2.1

theorem Settles.bind_lift {y : Except Fault α} (h : ∀ a, y = .ok a → Settles R (f a) s) :
    Settles R (liftM y >>= f) s := by
  cases y with
  | error e => exact Settles.fault
  | ok a => exact h a rfl

theorem Settles.bind_get {f : Session → Op β} (hsame : ∀ w, R.rel s w → f w = f s)
    (h : Settles R (f s) s) : Settles R (MonadState.get >>= f) s := by
  intro r t hr hanswered
  obtain ⟨hst, hagain⟩ := h r t hr hanswered
  refine ⟨hst, fun w hw => ?_⟩
  change f w w = (r, w)
  rw [hsame w (R.trans hst hw)]
  exact hagain w hw

def Faulty (e : Failure) : Prop := ∃ f, e = .fault f

/-- What is recalled is settled, if it is never given up. -/
theorem Settles.of_recalls (h : Recalls R x s P) (hx : FailsOnly Faulty x s) : Settles R x s := by
  intro r t hr hanswered
  cases r with
  | error e =>
    obtain ⟨f, rfl⟩ := hx.of_error e t hr
    exact absurd rfl (hanswered f)
  | ok a =>
    obtain ⟨hst, -, hagain⟩ := h.of_ends hr
    exact ⟨hst, hagain⟩

theorem FailsOnly.faulty {e : Fault} : FailsOnly Faulty (fault e : Op α) s := by
  constructor
  rintro e' t ⟨⟩
  exact ⟨e, rfl⟩

theorem FailsOnly.bind_lift {y : Except Fault α} (h : ∀ a, y = .ok a → FailsOnly Faulty (f a) s) :
    FailsOnly Faulty (liftM y >>= f) s := by
  cases y with
  | error e => exact .faulty
  | ok a => exact h a rfl

theorem current_faulty (u : TranslationUnit) (s : Session) :
    FailsOnly Faulty (Session.current u) s := by
  apply FailsOnly.bind_get
  split
  · split
    · exact .pure
    · exact .faulty
  · exact .faulty

/-- What needs the unit to be open faults if it is not. -/
theorem FailsOnly.of_open {f : OpenUnit → Op β}
    (h : (∃ o, IsOpen u o s) → FailsOnly Faulty (Session.current u >>= f) s) :
    FailsOnly Faulty (Session.current u >>= f) s := by
  by_cases hopen : ∃ o, IsOpen u o s
  · exact h hopen
  · apply (current_faulty u s).bind
    intro o t ho
    exact absurd ⟨o, (isOpen_of_current ho).1⟩ hopen

theorem requireOpen_faulty (u : TranslationUnit) (s : Session) :
    FailsOnly Faulty (Session.requireOpen u) s := (current_faulty u s).bind fun _ _ _ => .pure

/-- To require that a unit is open changes nothing. -/
theorem eq_of_requireOpen {a : PUnit} (h : (Session.requireOpen u).Ends s a t) : t = s := by
  obtain ⟨o, w, hw, ht⟩ := ends_bind.1 h
  exact (ends_pure.1 ht).2.symm.trans (isOpen_of_current hw).2

theorem Settles.bind_requireOpen {f : PUnit → Op β} (hR : ∀ w, R.rel s w → s.Visits w)
    (h : Settles R (f ⟨⟩) s) : Settles R (Session.requireOpen u >>= f) s := by
  have hrecalls : Recalls R (Session.requireOpen u) s fun _ _ => True := by
    rw [← bind_pure (Session.requireOpen u)]
    exact Recalls.bind_requireOpen hR (Recalls.pure trivial)
  apply (Settles.of_recalls hrecalls (requireOpen_faulty u s)).bind
  intro _ t ht
  obtain rfl := eq_of_requireOpen ht
  exact h

end Op

namespace Session

variable {s t : Session} {u : TranslationUnit} {e : ExprId} {view : Viewpoint}

/-! ## What is made once is never given up -/

theorem newParameter_faulty (d : DeclId) (hs : s.WellFormed) :
    FailsOnly Faulty (newParameter u d) s := by
  cases hd : u.decl d with
  | error e =>
    rw [newParameter, hd, lift_error_bind]
    exact .faulty
  | ok p => exact newParameter_failsOnly hs (TranslationUnit.lt_of_decl hd)

theorem newParameters_faulty (ds : List DeclId) (hs : s.WellFormed) :
    FailsOnly Faulty (newParameters u ds) s := by
  induction ds generalizing s with
  | nil => exact .pure
  | cons d rest ih =>
    apply (newParameter_faulty d hs).bind_meets (newParameter_meets u d s)
    intro _ t (hst : s.Creates t) _
    exact (ih (hst.wellFormed hs)).bind fun _ _ _ => .pure

theorem newFunction_faulty (func : DeclId) (hs : s.WellFormed) :
    FailsOnly Faulty (newFunction u func) s := by
  apply FailsOnly.bind_lift
  intro d _
  split
  · apply (newPointer_failsOnly _ _ _).bind_meets (newPointer_meets _ _ _ s)
    intro _ t (hst : s.Creates t) _
    exact (newParameters_faulty _ (hst.wellFormed hs)).bind fun _ _ _ => allocate_failsOnly _
  · exact .faulty

theorem implicitPrototype_faulty (func : DeclId) (hs : s.WellFormed) :
    FailsOnly Faulty (implicitPrototype u func) s := by
  apply (requireOpen_faulty u s).bind
  intro _ t ht
  obtain rfl := eq_of_requireOpen ht
  apply FailsOnly.bind_lift
  intro key _
  apply FailsOnly.bind_get
  split
  · exact .pure
  · apply FailsOnly.bind_lift
    intro definition _
    apply (newFunction_faulty _ hs).bind
    intro v w _
    exact FailsOnly.bind_modify (FailsOnly.bind_modify .pure)

theorem literalVariable_faulty (value : String) (hs : s.WellFormed) :
    FailsOnly Faulty (literalVariable u e value) s :=
  FailsOnly.of_open fun ho => literalVariable_failsOnly ⟨hs, ho⟩ value

theorem unknownCallee_faulty (hs : s.WellFormed) : FailsOnly Faulty (unknownCallee u e) s :=
  FailsOnly.of_open fun ho => unknownCallee_failsOnly ⟨hs, ho⟩

theorem implicitPrototype_settles (func : DeclId) (hs : s.WellFormed) :
    Settles .visits (implicitPrototype u func) s :=
  .of_recalls (implicitPrototype_recalls u func hs) (implicitPrototype_faulty func hs)

/-! ## Declarations and expressions -/

theorem storedFor_settles (d : DeclId) : Settles .visits (storedFor u d) s := by
  refine Settles.bind_get (fun w (hw : s.Visits w) => ?_) (Settles.bind_lift fun _ _ => .pure)
  simp only [storedAt, hw.index]

theorem storedParam_settles (func : DeclId) (i : Nat) :
    Settles .visits (storedParam u func i) s := by
  apply Settles.bind_lift
  intro d _
  split
  · exact storedFor_settles _
  · exact .pure

/-- An answer about a parameter is given ever after. -/
theorem denoteParam_settles (owner : DeclId) (i : Nat) (hs : s.WellFormed) :
    Settles .visits (denoteParam u owner i view) s := by
  cases view with
  | body =>
    apply Settles.bind_lift
    intro definition _
    split
    · exact storedParam_settles _ i
    · exact Settles.bind_lift fun _ _ => .unresolved
  | declaration =>
    apply Settles.bind_lift
    intro declaration _
    split
    · exact storedParam_settles _ i
    · apply (implicitPrototype_settles owner hs).bind_recalls (implicitPrototype_recalls u owner hs)
      intro functions t (hst : s.Visits t) hf
      refine Settles.bind_get (fun w (hw : t.Visits w) => ?_) .pure
      rw [slotsOf_eq hf.1 hw.toExtends]

theorem denoteFunction_settles (func : DeclId) (hs : s.WellFormed) :
    Settles .visits (denoteFunction u func) s := by
  apply Settles.bind_lift
  intro prototype _
  split
  · exact storedFor_settles _
  · exact implicitPrototype_settles func hs

/-- An answer about a declaration is given ever after. -/
theorem denoteDecl_settles (id : DeclId) (hs : s.WellFormed) :
    Settles .visits (denoteDecl u id view) s := by
  refine Settles.bind_requireOpen (fun _ h => h) (Settles.bind_lift fun d _ => ?_)
  refine Settles.bind_get (fun w (hw : s.Visits w) => by rw [hw.index]) ?_
  split
  · exact .pure
  · split
    · exact denoteFunction_settles id hs
    · split
      · apply Settles.bind_lift
        intro position _
        split
        · exact denoteParam_settles _ _ hs
        · exact .unresolved
      · refine Settles.bind_get (fun w (hw : s.Visits w) => ?_) .pure
        rw [storedAt, hw.index, storedAt]

/-- Dereferenced variables are answered for good. -/
theorem dereferenceAll_settles (vs : List VarId) (hs : s.WellFormed) :
    Settles .visits (dereferenceAll vs) s := by
  induction vs generalizing s with
  | nil => exact .pure
  | cons v rest ih =>
    have hrecalls := dereferenceOne_recalls v hs
    apply (Settles.of_recalls hrecalls (dereferenceOne_failsOnly v)).bind_recalls hrecalls
    intro below t (hst : s.Visits t) _
    exact (ih (hst.wellFormed hs)).bind fun _ _ _ => .pure

/-- An answer about a call of a named declaration is given ever after. -/
theorem denoteCall_settles (call : ExprId) (target : DeclId) (hs : s.WellFormed) :
    Settles .visits (denoteCall u call target) s := by
  apply Settles.bind_lift
  intro d _
  split
  · exact .unresolved
  · apply (denoteDecl_settles target hs).bind_recalls (denoteDecl_recalls u target .declaration hs)
    intro found t (hst : s.Visits t) hfound
    have ht := hst.wellFormed hs
    refine Settles.bind_get (fun w (hw : t.Visits w) => ?_) ?_
    · simp only [reachableFunctions_eq ht hfound hw.toExtends]
    · dsimp only
      split
      · exact .pure
      · have hcallee := Settles.of_recalls (unknownCallee_recalls u call ht)
          (unknownCallee_faulty ht)
        exact hcallee.bind fun _ _ _ => .pure

/-- A look at an expression settles it, by what each look at an operand settles. -/
theorem denoteWithin_settles (n : Nat) (hs : s.WellFormed) :
    Settles .visits (denoteWithin u n e view) s := by
  induction n generalizing s e view with
  | zero => exact .unresolved
  | succ n ih =>
    apply Settles.bind_lift
    intro x _
    cases x with
    | paren inner | implicitCast inner | bindTemporary inner => exact ih hs
    | declRef d | member _ d => exact denoteDecl_settles d hs
    | binary _ lhs rhs =>
      apply (ih hs).bind_recalls (denoteWithin_recalls u n lhs view hs)
      intro left t (hst : s.Visits t) _
      exact (ih (hst.wellFormed hs)).bind fun _ _ _ => .pure
    | subscript base _ =>
      apply (ih hs).bind_recalls (denoteWithin_recalls u n base view hs)
      intro set t (hst : s.Visits t) _
      exact dereferenceAll_settles _ (hst.wellFormed hs)
    | unary op operand =>
      cases op with
      | deref =>
        apply (ih hs).bind_recalls (denoteWithin_recalls u n operand view hs)
        intro set t (hst : s.Visits t) hset
        refine Settles.bind_get (fun w (hw : t.Visits w) => ?_) ?_
        · rw [anyFunction_eq hset hw.toExtends]
        · split
          · exact .unresolved
          · exact dereferenceAll_settles _ (hst.wellFormed hs)
      | addrOf | neg | not => exact ih hs
    | call callee args =>
      apply Settles.bind_lift
      intro target _
      split
      · exact denoteCall_settles e _ hs
      · apply (ih hs).bind_recalls (denoteWithin_recalls u n callee .declaration hs)
        intro callees t (hst : s.Visits t) hcallees
        refine Settles.bind_get (fun w (hw : t.Visits w) => ?_) .pure
        unfold returnsOf
        rw [reachableFunctions_eq (hst.wellFormed hs) hcallees hw.toExtends]
    | conditional cond whenTrue whenFalse =>
      apply (ih hs).bind_recalls (denoteWithin_recalls u n cond view hs)
      intro first t (hst : s.Visits t) _
      have ht := hst.wellFormed hs
      apply (ih ht).bind_recalls (denoteWithin_recalls u n whenTrue view ht)
      intro second w (htw : t.Visits w) _
      exact (ih (htw.wellFormed ht)).bind fun _ _ _ => .pure
    | stringLiteral value =>
      have hliteral := Settles.of_recalls (literalVariable_recalls u e value hs)
        (literalVariable_faulty value hs)
      exact hliteral.bind fun _ _ _ => .pure
    | intLiteral _ | cast _ _ | sizeOf _ => exact .pure

/-! ## Questions -/

theorem Question.ask_settles (q : Question) (hs : s.WellFormed) : Settles .visits (q.ask u) s := by
  cases q with
  | decl d view => exact denoteDecl_settles d hs
  | expr e view => exact Settles.bind_requireOpen (fun _ h => h) (denoteWithin_settles _ hs)
  | signature func => exact implicitPrototype_settles func hs

/-- However many visits are made and whatever becomes of each, the open unit is remembered. -/
theorem visits_after {rs : List Request} (hs : s.WellFormed) (hrs : ∀ r ∈ rs, r.isVisit) :
    s.Visits (s.after rs) := by
  induction rs generalizing s with
  | nil => exact .refl s
  | cons r rest ih =>
    obtain ⟨hr, hrest⟩ := List.forall_mem_cons.1 hrs
    have hfirst : s.Visits (r.run s).2 := visits_of_visiting (r.run_visiting hr) hs
    exact hfirst.trans (ih (hfirst.wellFormed hs) hrest)

def Question.Within (u : TranslationUnit) : Question → Prop
  | decl d _ => d < u.decls.size
  | expr e _ => e < u.exprs.size
  | signature func => u.IsFunction func

/-- A question about the open unit does not fault if the unit is closed. -/
theorem Question.ask_answered {q : Question} (hu : u.Closed) (hr : Ready u s) (hq : q.Within u) :
    Answered (q.ask u s).1 := by
  have hask : FailsOnly (fun e => ∃ e', e = .unresolved e') (q.ask u) s := by
    cases q with
    | decl d view => exact denoteDecl_failsOnly (fun p => ⟨_, rfl⟩) hu hr hq
    | expr e view => exact denote_failsOnly (.of_all fun e => ⟨e, rfl⟩) hu hr hq
    | signature func => exact implicitPrototype_failsOnly (fun _ _ hd _ => hu.param_lt hd) hr hq
  intro f hf
  obtain ⟨e', he'⟩ := hask.of_error _ (q.ask u s).2 (Prod.ext hf rfl)
  cases he'

/-- In every session that arises, a question about a closed unit that is open is answered or given
up, and then asked again it comes to the same and changes nothing: at once, or after any visits of
the unit, whatever becomes of each. (To solve changes nothing of a session, so it is no visit.) -/
theorem Arises.ask_stable {options : Options} (h : Arises options s) (u : TranslationUnit)
    (q : Question) :
    (u.checkClosed = .ok () → (∃ o, IsOpen u o s) → q.Within u → Answered (q.ask u s).1) ∧
      (Answered (q.ask u s).1 → ∀ rs : List Request, (∀ r ∈ rs, r.isVisit) →
        q.ask u ((q.ask u s).2.after rs) = ((q.ask u s).1, (q.ask u s).2.after rs)) := by
  have hs := h.wellFormed
  refine ⟨fun hu ho hq => q.ask_answered (TranslationUnit.closed_of_checkClosed hu) ⟨hs, ho⟩ hq,
    fun hanswered rs hrs => ?_⟩
  obtain ⟨hst, hagain⟩ := q.ask_settles hs _ _ rfl hanswered
  have hst : s.Visits (q.ask u s).2 := hst
  exact hagain _ (visits_after (hst.wellFormed hs) hrs)

/-- One statement of the unit has two variables and the other is given up; after more looks and the
visit of the unit both are as they were. -/
theorem Arises.ask_stable_quotingUnit :
    ∃ s, Arises .default s ∧ s.arena.size = 8 ∧
      (∃ t w, t = ((Question.expr 7 .body).ask quotingUnit s).2 ∧ t.arena.size = 11 ∧
        ((Question.expr 7 .body).ask quotingUnit s).1.toOption.map VarSet.members = some [8, 10] ∧
        w = t.after [.denote quotingUnit 9 .body, .flow quotingUnit] ∧ w.arena.size = 13 ∧
        (Question.expr 7 .body).ask quotingUnit w =
          (((Question.expr 7 .body).ask quotingUnit s).1, w)) ∧
      ∃ t w, t = ((Question.expr 9 .body).ask quotingUnit s).2 ∧ t.arena.size = 10 ∧
        ((Question.expr 9 .body).ask quotingUnit s).1.toOption.isNone ∧
        w = t.after [.denote quotingUnit 7 .body, .flow quotingUnit] ∧ w.arena.size = 13 ∧
        (Question.expr 9 .body).ask quotingUnit w =
          (((Question.expr 9 .body).ask quotingUnit s).1, w) := by
  let s := (Session.new .default).after (quotingRequests.take 4)
  have hs : Arises .default s :=
    Continues.after fun r hr => quotingRequests_lawful r (List.mem_of_mem_take hr)
  have hclosed : quotingUnit.checkClosed = .ok () := by decide +kernel
  have hopened : (s.opened.map fun o => (o.id, o.file)) = some (0, "a.c") := by decide +kernel
  have hopen : ∃ o, IsOpen quotingUnit o s := by
    obtain ⟨o, ho, hsame⟩ := Option.map_eq_some_iff.1 hopened
    exact ⟨o, ho, congrArg Prod.fst hsame, congrArg Prod.snd hsame⟩
  have hvisits : ∀ e, ∀ r ∈ [Request.denote quotingUnit e .body, .flow quotingUnit], r.isVisit := by
    simp [Request.isVisit]
  have hstable : ∀ e < quotingUnit.exprs.size, ∀ rs : List Request, (∀ r ∈ rs, r.isVisit) →
      (Question.expr e .body).ask quotingUnit
        (((Question.expr e .body).ask quotingUnit s).2.after rs) =
          (((Question.expr e .body).ask quotingUnit s).1,
            ((Question.expr e .body).ask quotingUnit s).2.after rs) := by
    intro e he
    obtain ⟨hanswered, hagain⟩ := Arises.ask_stable hs quotingUnit (.expr e .body)
    exact hagain (hanswered hclosed hopen he)
  refine ⟨s, hs, by decide +kernel, ⟨_, _, rfl, ?_, ?_, rfl, ?_, ?_⟩,
    _, _, rfl, ?_, ?_, rfl, ?_, ?_⟩
  · decide +kernel
  · decide +kernel
  · decide +kernel
  · exact hstable 7 (by decide) _ (hvisits 9)
  · decide +kernel
  · decide +kernel
  · decide +kernel
  · exact hstable 9 (by decide) _ (hvisits 7)

end Session

end CheckedPointers
