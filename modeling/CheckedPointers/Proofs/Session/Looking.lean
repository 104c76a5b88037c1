import CheckedPointers.Proofs.Session.Changes

/-!
Looking up a declaration or an expression, however it ends: every step makes variables or remembers
one that was made. The steps depend on what was looked up before only in that they dereference
variables that are there.
-/
namespace CheckedPointers

open Op

namespace Session

variable {s t : Session} {u : TranslationUnit} {view : Viewpoint} {e : ExprId}

/-! ## Signatures made on demand -/

/-- The new function comes after all that was there. -/
theorem newFunction_later (u : TranslationUnit) (func : DeclId) (s : Session) :
    Meets .creates (newFunction u func) s fun v t => s.arena.size ≤ v ∧ t.arena.isFunction v := by
  refine Meets.bind_lift fun d _ => ?_
  split
  · refine Meets.bind (newPointer_meets _ _ _ s) fun r t (hst : s.Creates t) hr => ?_
    refine Meets.bind (newParameters_meets u _ t) fun slots w (htw : t.Creates w) hslots => ?_
    have hle := (hst.trans htw).arena.size_le
    exact Meets.modifyGet (allocate_function_meets (htw.arena.isPointer hr) hslots).1
      ⟨hle, isFunction_push w _⟩
  · exact Meets.fault

/-- A new function is not noted yet, and shares no atom with one that is. -/
theorem newFunction_unclaimed {func : DeclId} {v : VarId} (hs : s.WellFormed)
    (h : (newFunction u func).Ends s v t) : t.Unclaimed v := by
  obtain ⟨hst, hle, hfun⟩ := (newFunction_later u func s).of_ends h
  obtain ⟨-, f, hnew⟩ := (newFunction_from u func hs).of_ends h
  have hst : s.Creates t := hst
  have hpairing : t.pairing = s.pairing := by rw [hst.only]
  refine ⟨hfun, fun w hw => ?_⟩
  have hold : w < s.arena.size := by
    unfold Registered Declared at hw
    rw [hpairing] at hw
    rcases hw with hw | hw
    · exact Arena.lt_of_isFunction (Registered.isFunction hw hs)
    · exact Arena.lt_of_isFunction (Declared.isFunction hw hs)
  exact ⟨Nat.ne_of_lt (Nat.lt_of_lt_of_le hold hle), hnew.owns.not_shares hs.arena hst.arena hold⟩

theorem newFunction_looking (func : DeclId) : Leaves .looking (newFunction u func) s :=
  LookStep.looking fun hs => .builds (newFunction_builds func hs)

theorem implicitPrototype_looking (func : DeclId) :
    Leaves .looking (implicitPrototype u func) s := by
  apply Leaves.intro
  intro hs
  apply Leaves.bind_requireOpen
  intro _ _
  apply Leaves.bind_lift
  intro key _
  apply Leaves.bind_get
  split
  · exact .pure
  · next hfree =>
    apply Leaves.bind_lift
    intro definition _
    apply (newFunction_looking _).bind
    intro v t ht
    have hst : s.Creates t := ((newFunction_later u _ s).of_ends ht).1
    have hfree : t.implicits.find? key = none := by rw [hst.only]; exact hfree
    change Frame.looking.rel t (t.withSignature key v)
    exact LookStep.looking fun _ => .signs hfree (newFunction_unclaimed hs ht)

/-! ## Declarations -/

theorem storedFor_looking (d : DeclId) : Leaves .looking (storedFor u d) s :=
  Leaves.bind_get (Leaves.bind_lift fun _ _ => .pure)

theorem storedParam_looking (func : DeclId) (i : Nat) :
    Leaves .looking (storedParam u func i) s := by
  apply Leaves.bind_lift
  intro d _
  split
  · exact storedFor_looking _
  · exact .pure

theorem denoteFunction_looking (func : DeclId) : Leaves .looking (denoteFunction u func) s := by
  apply Leaves.bind_lift
  intro prototype _
  split
  · exact storedFor_looking _
  · exact implicitPrototype_looking func

theorem denoteParam_looking (owner : DeclId) (i : Nat) :
    Leaves .looking (denoteParam u owner i view) s := by
  cases view with
  | body =>
    apply Leaves.bind_lift
    intro definition _
    split
    · exact storedParam_looking _ i
    · exact Leaves.bind_lift fun _ _ => .unresolved
  | declaration =>
    apply Leaves.bind_lift
    intro prototype _
    split
    · exact storedParam_looking _ i
    · exact (implicitPrototype_looking owner).bind fun _ _ _ => Leaves.bind_get .pure

theorem denoteDecl_looking (id : DeclId) : Leaves .looking (denoteDecl u id view) s := by
  apply Leaves.bind_requireOpen
  intro _ _
  apply Leaves.bind_lift
  intro d _
  apply Leaves.bind_get
  split
  · exact .pure
  · split
    · exact denoteFunction_looking id
    · split
      · apply Leaves.bind_lift
        intro position _
        split
        · exact denoteParam_looking _ _
        · exact .unresolved
      · exact Leaves.bind_get .pure

/-! ## What is made once -/

theorem dereferenceOne_looking {v : VarId} (hv : v < s.arena.size) :
    Leaves .looking (dereferenceOne v) s := by
  apply Leaves.bind_get
  split
  · exact .pure
  · next hfree =>
    apply Leaves.bind_get
    split
    · next q hq =>
      obtain ⟨p, hp, hq⟩ := Option.bind_eq_some_iff.1 hq
      change Frame.looking.rel s (s.withPointee v q)
      exact LookStep.looking fun _ => .derives hfree hp hq
    · next hlast =>
      exact LookStep.looking (t := { s with pointees := s.pointees.insert v none })
        fun _ => .bottoms hfree hv hlast

theorem dereferenceAll_looking {vs : List VarId} (hvs : ∀ v ∈ vs, v < s.arena.size) :
    Leaves .looking (dereferenceAll vs) s := by
  induction vs generalizing s with
  | nil => exact .pure
  | cons v rest ih =>
    apply Leaves.intro
    intro hs
    obtain ⟨hv, hrest⟩ := List.forall_mem_cons.1 hvs
    apply (dereferenceOne_looking hv).bind
    intro below t ht
    have hst : s.Visits t := ((dereferenceOne_recalls v hs).of_ends ht).1
    apply (ih fun w hw => Nat.lt_of_lt_of_le (hrest w hw) hst.arena.size_le).bind
    exact fun _ _ _ => .pure

/-- A constraint on atoms that are there is recorded and nothing else happens. -/
theorem addConstraint_ends_in {c : Constraint} (hc : c.Known s.solver.cells.size) :
    ∃ b, (addConstraint c).Ends s b { s with solver := (s.solver.add c).2 } := by
  obtain ⟨b, t, h⟩ := addConstraint_ends hc
  obtain ⟨hst, hsolver, -⟩ := known_of_addConstraint h
  have ht : t = { s with solver := (s.solver.add c).2 } := by rw [hst.only, hsolver]
  exact ⟨b, ht ▸ h⟩

/-- A literal that has no variable yet gets one, and that cannot fail. -/
theorem literalVariable_ends {o : OpenUnit} (value : String) (ho : IsOpen u o s)
    (hfree : o.literals.find? e = none) :
    (literalVariable u e value).Ends s s.arena.size (s.withLiteral o e value) := by
  have hknown : (Constraint.atLeast s.solver.cells.size .ntArr).Known
      s.solver.fresh.2.cells.size := by simp [ConstraintSystem.fresh]
  obtain ⟨b, hb⟩ := addConstraint_ends_in (s := { s with solver := s.solver.fresh.2 }) hknown
  refine ends_bind.2 ⟨o, s, ends_current ho, ?_⟩
  simp only [hfree]
  refine ends_bind.2 ⟨s.solver.cells.size, _, ends_modifyGet.2 rfl, ?_⟩
  refine ends_bind.2 ⟨⟨⟩, _, ends_discard.2 ⟨b, hb⟩, ?_⟩
  refine ends_bind.2 ⟨s.arena.size, _, ends_modifyGet.2 rfl, ?_⟩
  refine ends_bind.2 ⟨o, _, ends_current ho, ?_⟩
  exact ends_bind.2 ⟨⟨⟩, _, ends_modify.2 rfl, ends_pure.2 ⟨rfl, rfl⟩⟩

theorem unknownCallee_ends {o : OpenUnit} (ho : IsOpen u o s)
    (hfree : o.unknownCallees.find? e = none) :
    (unknownCallee u e).Ends s s.arena.size (s.withUnknownCallee o e) := by
  refine ends_bind.2 ⟨o, s, ends_current ho, ?_⟩
  simp only [hfree]
  refine ends_bind.2 ⟨s.arena.size, _, ends_modifyGet.2 rfl, ?_⟩
  refine ends_bind.2 ⟨o, _, ends_current ho, ?_⟩
  exact ends_bind.2 ⟨⟨⟩, _, ends_modify.2 rfl, ends_pure.2 ⟨rfl, rfl⟩⟩

theorem literalVariable_looking (value : String) :
    Leaves .looking (literalVariable u e value) s := by
  by_cases h : ∃ o, IsOpen u o s ∧ o.literals.find? e = none
  · obtain ⟨o, ho, hfree⟩ := h
    exact .of_final (literalVariable_ends value ho hfree)
      (LookStep.looking fun _ => .quotes ho.1 hfree)
  · apply Leaves.bind_current
    intro o ho
    split
    · exact .pure
    · next hfree => exact absurd ⟨o, ho, hfree⟩ h

theorem unknownCallee_looking : Leaves .looking (unknownCallee u e) s := by
  by_cases h : ∃ o, IsOpen u o s ∧ o.unknownCallees.find? e = none
  · obtain ⟨o, ho, hfree⟩ := h
    exact .of_final (unknownCallee_ends ho hfree) (LookStep.looking fun _ => .guesses ho.1 hfree)
  · apply Leaves.bind_current
    intro o ho
    split
    · exact .pure
    · next hfree => exact absurd ⟨o, ho, hfree⟩ h

theorem denoteCall_looking (target : DeclId) : Leaves .looking (denoteCall u e target) s := by
  apply Leaves.bind_lift
  intro d _
  split
  · exact .unresolved
  · apply (denoteDecl_looking target).bind
    intro found t _
    apply Leaves.bind_get
    dsimp only
    split
    · exact .pure
    · exact unknownCallee_looking.bind fun _ _ _ => .pure

/-! ## Expressions -/

/-- Whatever an expression denotes, looking at it leaves only traces of looking: one case for each
kind. -/
theorem denoteWithin_looking (n : Nat) : Leaves .looking (denoteWithin u n e view) s := by
  induction n generalizing s e view with
  | zero => exact .unresolved
  | succ n ih =>
    apply Leaves.intro
    intro hs
    -- what was denoted is there
    have hbelow : ∀ base set t, (denoteWithin u n base view).Ends s set t →
        Leaves .looking (dereference set) t := fun base set t ht =>
      dereferenceAll_looking ((denoteWithin_recalls u n base view hs).of_ends ht).2.1
    apply Leaves.bind_lift
    intro x _
    cases x with
    | paren _ | implicitCast _ | bindTemporary _ => exact ih
    | declRef d => exact denoteDecl_looking d
    | member _ d => exact denoteDecl_looking d
    | binary _ lhs rhs => exact ih.bind fun _ _ _ => ih.bind fun _ _ _ => .pure
    | subscript base _ => exact ih.bind (hbelow base)
    | unary op operand =>
      cases op with
      | deref =>
        apply ih.bind
        intro set t ht
        apply Leaves.bind_get
        split
        · exact .unresolved
        · exact hbelow operand set t ht
      | addrOf | neg | not => exact ih
    | call callee args =>
      apply Leaves.bind_lift
      intro target _
      split
      · exact denoteCall_looking _
      · exact ih.bind fun _ _ _ => Leaves.bind_get .pure
    | conditional cond whenTrue whenFalse =>
      exact ih.bind fun _ _ _ => ih.bind fun _ _ _ => ih.bind fun _ _ _ => .pure
    | stringLiteral value => exact (literalVariable_looking value).bind fun _ _ _ => .pure
    | intLiteral _ | cast _ _ | sizeOf _ => exact .pure

theorem denote_looking : Leaves .looking (denote u e view) s :=
  Leaves.bind_requireOpen fun _ _ => denoteWithin_looking _

end Session

end CheckedPointers
