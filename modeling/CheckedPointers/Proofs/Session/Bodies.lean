import CheckedPointers.Proofs.Session.Signatures
import CheckedPointers.Proofs.Session.Stability

/-!
Where new variables come to stand. When a request is through, every function with a body stands at
an anchor or was made on demand, and what stands at an anchor stood there before the request or owns
nothing that was there before it.
-/
namespace CheckedPointers

open Op

namespace Frame

def unbodied : Frame where
  rel s t := ∀ v, t.HasBody v → s.HasBody v
  refl _ _ := id
  trans h h' v hv := h v (h' v hv)

end Frame

namespace Session

variable {s t w : Session} {u : TranslationUnit} {v : VarId} {e : ExprId} {options : Options}

/-! ## Functions without a body -/

theorem unbodied_of_arena (h : t.arena = s.arena) : Frame.unbodied.rel s t := by
  intro v hv
  rwa [HasBody, h] at hv

theorem Records.unbodied (h : s.Records t) : Frame.unbodied.rel s t := unbodied_of_arena h.arena

/-- Of the functions with a body only the new variable can be new. -/
theorem hasBody_push {x : Variable}
    (h : ({ s with arena := s.arena.push x } : Session).HasBody v) :
    s.HasBody v ∨ v = s.arena.size ∧ ∃ f, x.function? = some f ∧ f.hasBody := by
  obtain ⟨f, hf, hbody⟩ := h
  rw [Arena.function?_push] at hf
  split at hf
  · next hv => exact .inr ⟨hv, f, hf, hbody⟩
  · exact .inl ⟨f, hf, hbody⟩

theorem allocate_unbodied {x : Variable} (hx : ∀ f, x.function? = some f → ¬ f.hasBody) :
    Stays .unbodied (allocate x) := by
  refine fun s => Meets.modifyGet (fun v hv => ?_) trivial
  rcases hasBody_push hv with hold | ⟨-, f, hf, hbody⟩
  · exact hold
  · exact absurd hbody (hx f hf)

theorem allocate_pointer_unbodied (p : PointerVariable) : Stays .unbodied (allocate (.pointer p)) :=
  allocate_unbodied fun _ h => nomatch h

theorem freshAtom_unbodied : Stays .unbodied freshAtom :=
  fun _ => Meets.modifyGet (fun _ => id) trivial

theorem freshAtoms_unbodied (n : Nat) : Stays .unbodied (freshAtoms n) := by
  induction n with
  | zero => exact .pure
  | succ n ih => exact freshAtom_unbodied.bind fun _ => ih.bind fun _ => .pure

theorem newPointerOver_unbodied {ty : CType} {name : String} {itype : Option String}
    {pointee : Op (Option VarId)} (h : Stays .unbodied pointee) :
    Stays .unbodied (newPointerOver ty name itype pointee) :=
  (freshAtoms_unbodied _).bind fun _ => h.bind fun _ => allocate_pointer_unbodied _

mutual

/-- Functions at the bottom of types have no body. -/
theorem newPointee_unbodied (name : String) : (ty : CType) → Stays .unbodied (newPointee name ty)
  | .pointer inner => by
    rw [newPointee]
    exact newPointee_unbodied name inner
  | .array elem _ => by
    rw [newPointee]
    exact newPointee_unbodied name elem
  | .typedef _ underlying => by
    rw [newPointee]
    exact newPointee_unbodied name underlying
  | .function ret params _ _ => by
    rw [newPointee]
    apply (newPointerOver_unbodied (newPointee_unbodied name ret)).bind
    intro r
    apply (newSlots_unbodied params).bind
    intro slots
    exact (allocate_unbodied fun f hf => by cases hf; simp).bind fun _ => .pure
  | .builtin _ => by
    rw [newPointee]
    exact .pure
  | .record _ => by
    rw [newPointee]
    exact .pure

theorem newSlots_unbodied : (tys : List CType) → Stays .unbodied (newSlots tys)
  | [] => by
    rw [newSlots]
    exact .pure
  | ty :: rest => by
    rw [newSlots]
    apply (newPointerOver_unbodied (newPointee_unbodied "" ty)).bind
    exact fun p => (newSlots_unbodied rest).bind fun _ => .pure

end

theorem newPointer_unbodied (ty : CType) (name : String) (itype : Option String) :
    Stays .unbodied (newPointer ty name itype) :=
  newPointerOver_unbodied (newPointee_unbodied name ty)

theorem newParameters_unbodied (ds : List DeclId) : Stays .unbodied (newParameters u ds) := by
  induction ds with
  | nil => exact .pure
  | cons d rest ih =>
    have hfirst : Stays .unbodied (newParameter u d) := by
      apply Stays.bind_lift
      intro p _
      apply (newPointer_unbodied _ _ _).bind
      intro v
      dsimp only
      split
      · have hbound : Stays .unbodied (boundBelow v .leastSafe) := fun s =>
          (boundBelow_meets v .leastSafe s).any.widen fun _ => Records.unbodied
        exact hbound.discard.bind fun _ => .pure
      · exact .pure
    exact hfirst.bind fun v => ih.bind fun _ => .pure

/-- Of the functions with a body only the one asked for can be new. -/
theorem newFunction_bodies (func : DeclId) (s : Session) :
    Meets .any (newFunction u func) s fun v t => ∀ w, t.HasBody w → s.HasBody w ∨ w = v := by
  refine Meets.bind_lift fun d _ => ?_
  split
  · refine Meets.bind ((newPointer_unbodied _ _ _ s).frame.widen fun _ _ => trivial)
      fun r t _ ⟨hst, _⟩ => ?_
    refine Meets.bind ((newParameters_unbodied _ t).frame.widen fun _ _ => trivial)
      fun slots w _ ⟨htw, _⟩ => Meets.modifyGet trivial fun x hx => ?_
    rcases hasBody_push hx with hold | ⟨rfl, -⟩
    · exact .inl (hst x (htw x hold))
    · exact .inr rfl
  · exact Meets.fault

theorem dereferenceOne_unbodied (v : VarId) : Stays .unbodied (dereferenceOne v) := by
  have hkeep : ∀ made, Stays .unbodied (do
      modify fun s => { s with pointees := s.pointees.insert v made }
      return made) := fun made =>
    Stays.bind (fun s => Meets.modify (unbodied_of_arena rfl) trivial) fun _ => .pure
  apply Stays.bind_get
  intro s
  split
  · exact .pure
  · apply Stays.bind_get
    intro t
    split
    · exact (allocate_pointer_unbodied _).map.bind hkeep
    · exact Stays.pure.bind hkeep

theorem setOpen_unbodied (o : OpenUnit) : Stays .unbodied (setOpen o) :=
  fun _ => Meets.modify (unbodied_of_arena rfl) trivial

theorem literalVariable_unbodied (e : ExprId) (value : String) :
    Stays .unbodied (literalVariable u e value) := by
  apply Stays.bind_current
  intro o
  split
  · exact .pure
  · apply freshAtom_unbodied.bind
    intro a
    have hbound : Stays .unbodied (addConstraint (.atLeast a .ntArr)) := fun s =>
      (addConstraint_meets _ s).any.widen fun _ => Records.unbodied
    apply hbound.discard.bind
    intro _
    apply (allocate_pointer_unbodied _).bind
    exact fun v => Stays.bind_current fun o => (setOpen_unbodied _).bind fun _ => .pure

theorem unknownCallee_unbodied (e : ExprId) : Stays .unbodied (unknownCallee u e) := by
  apply Stays.bind_current
  intro o
  split
  · exact .pure
  · apply (allocate_unbodied fun f hf => by cases hf; simp [FunctionVariable.unknown]).bind
    exact fun v => Stays.bind_current fun o => (setOpen_unbodied _).bind fun _ => .pure

/-! ## What a request leaves behind -/

/-- It stands at an anchor or was made on demand for a function without a prototype. -/
def Housed (s : Session) (v : VarId) : Prop :=
  s.Stands v ∨ ∃ key set, s.implicits.find? key = some set ∧ v ∈ set

/-- The tables grow, new functions with a body are in them, and what newly stands at an anchor owns
new atoms. -/
structure Accrues (s t : Session) : Prop extends Indexes s t where
  implicits : ∀ key set, s.implicits.find? key = some set → t.implicits.find? key = some set
  bodies : ∀ v, t.HasBody v → s.HasBody v ∨ t.Housed v
  places : ∀ v, t.Stands v → s.Stands v ∨ t.arena.OwnsFrom s.solver.cells.size v

theorem Accrues.housed (h : s.Accrues t) (hv : s.Housed v) : t.Housed v :=
  hv.imp (fun ⟨anchor, hv⟩ => ⟨anchor, h.index anchor v hv⟩)
    fun ⟨key, set, hset, hv⟩ => ⟨key, set, h.implicits key set hset, hv⟩

theorem Accrues.refl (s : Session) : s.Accrues s :=
  ⟨.refl s, fun _ _ => id, fun _ => .inl, fun _ => .inl⟩

theorem WellFormed.stands_lt (hs : s.WellFormed) (hv : s.Stands v) : v < s.arena.size := by
  obtain ⟨anchor, hv⟩ := hv
  exact hs.stored_lt hv

/-- Growth of tables can be followed by growth: a body that is registered stays so. -/
theorem Accrues.trans (h : s.Accrues t) (h' : t.Accrues w) (hs : s.WellFormed) : s.Accrues w where
  toIndexes := h.toIndexes.trans h'.toIndexes
  implicits key set hset := h'.implicits key set (h.implicits key set hset)
  bodies v hv := by
    rcases h'.bodies v hv with hold | hnew
    · exact (h.bodies v hold).imp_right h'.housed
    · exact .inr hnew
  places v hv := by
    have ht := h.wellFormed hs
    rcases h'.places v hv with hold | hnew
    · exact (h.places v hold).imp_right fun hown =>
        hown.grows ht.arena h'.arena (ht.stands_lt hold)
    · exact .inr (hnew.mono h.solver.size_le)

/-- Nothing is put at an anchor. -/
theorem Follows.accrues (h : s.Follows t)
    (hbodies : ∀ v, t.HasBody v → s.HasBody v ∨ t.Housed v) : s.Accrues t where
  toIndexes := h.indexes
  implicits := h.implicits
  bodies := hbodies
  places v := by
    rintro ⟨anchor, hv⟩
    rw [storedAt, h.index] at hv
    exact .inl ⟨anchor, hv⟩

theorem Records.accrues (h : s.Records t) : s.Accrues t :=
  h.creates.visits.toFollows.accrues fun v hv => .inl (h.unbodied v hv)

end Session

def Frame.accrues : Frame where
  rel s t := s.WellFormed → t.WellFormed ∧ s.Accrues t
  refl s hs := ⟨hs, .refl s⟩
  trans h h' hs := ⟨(h' (h hs).1).1, (h hs).2.trans (h' (h hs).1).2 hs⟩

namespace Op

variable {α : Type} {R : Frame} {s : Session} {x : Op α} {P : α → Session → Prop}

/-- What is never given up has to change the session as the relation admits only when it ends. -/
theorem Meets.of_faulty (h : Meets .any x s P) (hx : FailsOnly Faulty x s)
    (hP : ∀ a t, P a t → R.rel s t) : Meets R x s P := by
  rcases hr : x s with ⟨(f | e) | a, t⟩ <;> simp only [Meets, hr] at h ⊢
  · obtain ⟨f, hf⟩ := hx.of_error _ t hr
    cases hf
  · exact ⟨hP a t h.2, h.2⟩

end Op

namespace Session

variable {s t w : Session} {u : TranslationUnit} {v : VarId} {e : ExprId} {options : Options}
  {id : DeclId} {d : Decl}

/-! ## Giving variables -/

/-- Variables are made and put at anchors, new functions with a body among them, and all that is put
there owns new atoms. -/
structure Installs (s t : Session) : Prop where
  bodies : ∀ v, t.HasBody v → s.HasBody v ∨ t.Stands v
  places : ∀ v, t.Stands v → s.Stands v ∨ t.arena.OwnsFrom s.solver.cells.size v

theorem Installs.refl (s : Session) : s.Installs s := ⟨fun _ => .inl, fun _ => .inl⟩

/-- Variables that are made and then put at anchors were installed. -/
theorem Puts.installs {made : Session} {P : Anchor → VarId → Prop} (hputs : made.Puts t P)
    (hmade : s.Creates made) (hbodies : ∀ v, made.HasBody v → s.HasBody v ∨ ∃ a, P a v)
    (hown : ∀ a v, P a v → made.arena.OwnsFrom s.solver.cells.size v) : s.Installs t where
  bodies v hv := by
    rw [HasBody, hputs.arena] at hv
    exact (hbodies v hv).imp_right fun ⟨a, ha⟩ => ⟨a, (hputs.mem_storedAt a v).2 (.inr ha)⟩
  places v := by
    rintro ⟨a, hv⟩
    rw [hputs.arena]
    rcases (hputs.mem_storedAt a v).1 hv with hold | hnew
    · rw [storedAt, hmade.sameRoots.index] at hold
      exact .inl ⟨a, hold⟩
    · exact .inr (hown a v hnew)

theorem giveFunction_installs (hd : u.decl id = .ok d) (ty : CType) (hs : s.WellFormed) :
    Meets .any (giveFunction u id d ty) s fun _ t => s.Installs t := by
  refine (giveFunction_puts hd ty s).mono fun _ t _ hgave => ?_
  rcases hgave with ⟨rfl, -⟩ | ⟨-, hgave⟩
  · exact .refl t
  · obtain ⟨v, f, made, hends, hmade, hf, -, hputs⟩ := hgave.puts
    obtain ⟨-, g, hnew⟩ := (newFunction_from u id hs).of_ends hends
    obtain ⟨-, hbodies⟩ := (newFunction_bodies id s).of_ends hends
    obtain rfl := Option.some.inj (hf.symm.trans hnew.function)
    refine hputs.installs hmade (fun x hx => ?_) fun a x hx => ?_
    · exact (hbodies x hx).imp_right fun hxv => ⟨d.anchor, .inl ⟨rfl, hxv⟩⟩
    · rcases hx with ⟨-, rfl⟩ | ⟨e, he, -, -, -, hx⟩
      · exact hnew.owns
      · exact hnew.params.2 e.2 (List.of_mem_zip he).2 x hx

/-- A pointer that is put at its anchor was installed. -/
theorem givePointer_installs (d : Decl) (ty : CType) (hs : s.WellFormed) :
    Meets .any (givePointer d ty) s fun _ t => s.Installs t := by
  refine (givePointer_puts d ty s).mono fun _ t _ hgave => ?_
  rcases hgave with ⟨rfl, -⟩ | hgave
  · exact .refl t
  · obtain ⟨v, made, hends, hmade, -, hputs⟩ := hgave.puts
    obtain ⟨-, -, hown⟩ := (newPointer_from ty d.name d.itype? hs).of_ends hends
    obtain ⟨hbodies, -⟩ := (newPointer_unbodied ty d.name d.itype? s).of_ends hends
    exact hputs.installs hmade (fun x hx => .inl (hbodies x hx)) fun a x ⟨_, hx⟩ => hx ▸ hown

theorem Indexes.accrues (h : s.Indexes t) (himplicits : t.implicits = s.implicits)
    (hinstalls : s.Installs t) : s.Accrues t where
  toIndexes := h
  implicits _ _ hset := himplicits ▸ hset
  bodies v hv := (hinstalls.bodies v hv).imp_right .inl
  places := hinstalls.places

/-- It may make a function or a pointer, and it may bound what stands at the anchor. -/
theorem giveVariables_accrues (id : DeclId) (hs : s.WellFormed) :
    Meets .any (giveVariables u id) s fun _ t => s.Accrues t := by
  refine Meets.bind_requireOpen fun _ _ => Meets.bind_lift fun d hd => ?_
  split
  · next ty _ _ =>
    -- apart from its function a declarator may still have a pointer
    refine Meets.bind (giveFunction_installs hd ty hs).run fun _ t _ ⟨hends, hinstalls⟩ => ?_
    have hindexes : s.Indexes t := ((giveFunction_meets u id d ty hs).of_ends hends).1
    have hsupplies : Frame.supplies.rel s t := ((giveFunction_makes hd ty hs).of_ends hends).1
    have hst : s.Accrues t := hindexes.accrues (by rw [hsupplies]) hinstalls
    have ht := hst.wellFormed hs
    refine Meets.bind (givePointer_installs d ty ht).run fun _ w _ ⟨hends, hinstalls⟩ => ?_
    have hindexes : t.Indexes w := ((givePointer_meets d ty ht).of_ends hends).1
    have hplaces : Frame.places.rel t w :=
      ((givePointer_stays places_admits d ty t).of_ends hends).1
    have hsw := hst.trans (hindexes.accrues (by rw [hplaces]) hinstalls) hs
    dsimp only
    split
    · refine Meets.bind_get ?_
      split
      · next set _ =>
        have hbound : Meets .records (discard (boundSet set .leastSafe)) w fun _ _ => True :=
          Meets.discard (boundSet_meets set .leastSafe w).any
        refine Meets.bind (hbound.frame.widen fun _ _ => trivial)
          fun _ z _ hbounded => Meets.pure ?_
        have hwz : w.Records z := hbounded.1
        exact hsw.trans hwz.accrues hs
      · exact Meets.pure hsw
    · exact Meets.pure hsw
  · exact Meets.pure (.refl s)

/-! No declarator is given up. -/

theorem storeSlots_faulty (slots : List (DeclId × VarSet)) :
    FailsOnly Faulty (storeSlots u slots) s := by
  induction slots generalizing s with
  | nil => exact .pure
  | cons e rest ih => exact FailsOnly.bind_lift fun d _ => FailsOnly.bind_modify ih

theorem recordFunction_faulty (func : DeclId) (v : VarId) :
    FailsOnly Faulty (recordFunction u func v) s := by
  apply FailsOnly.bind_lift
  intro d _
  dsimp only
  split
  · apply FailsOnly.bind_modify
    apply FailsOnly.bind_lift
    intro prototype _
    split
    · exact FailsOnly.bind_lift fun _ _ =>
        FailsOnly.bind_modify (FailsOnly.bind_get (storeSlots_faulty _))
    · exact FailsOnly.bind_get (storeSlots_faulty _)
  · exact FailsOnly.bind_modify (FailsOnly.bind_get (storeSlots_faulty _))

theorem giveFunction_faulty (func : DeclId) (d : Decl) (ty : CType) (hs : s.WellFormed) :
    FailsOnly Faulty (giveFunction u func d ty) s := by
  apply FailsOnly.bind_get
  split
  · apply (newFunction_faulty func hs).bind
    intro v t _
    exact FailsOnly.bind_modify ((recordFunction_faulty func v).bind fun _ _ _ => .pure)
  · exact .pure

/-- To give a declarator its variables fails by a fault only. -/
theorem giveVariables_faulty (id : DeclId) (hs : s.WellFormed) :
    FailsOnly Faulty (giveVariables u id) s := by
  apply (requireOpen_faulty u s).bind
  intro _ z hz
  obtain rfl := eq_of_requireOpen hz
  apply FailsOnly.bind_lift
  intro d _
  split
  · apply (giveFunction_faulty id d _ hs).bind_meets (giveFunction_meets u id d _ hs)
    intro _ t (hst : z.Indexes t) _
    have ht := hst.wellFormed hs
    apply (givePointer_failsOnly d _).bind_meets (givePointer_meets d _ ht)
    intro _ w (htw : t.Indexes w) _
    dsimp only
    split
    · apply FailsOnly.bind_get
      split
      · next set hset =>
        have hw := htw.wellFormed ht
        apply (boundSet_failsOnly hw fun v hv => ?_).discard.bind fun _ _ _ => .pure
        exact hw.index _ (OrderedMap.mem_of_find? hset) v hv
      · exact .pure
    · exact .pure
  · exact .pure

/-! ## Looking -/

/-- A signature made on demand is remembered, with the body that its function may have. -/
theorem implicitPrototype_houses (func : DeclId) (s : Session) :
    Meets .any (implicitPrototype u func) s fun _ t =>
      ∀ v, t.HasBody v → s.HasBody v ∨ t.Housed v := by
  refine Meets.bind_requireOpen fun _ _ => Meets.bind_lift fun key _ => Meets.bind_get ?_
  split
  · exact Meets.pure fun _ => .inl
  · refine Meets.bind_lift fun definition _ => ?_
    refine Meets.bind (newFunction_bodies _ s) fun v t _ hbodies => ?_
    refine Meets.bind (P := fun _ w => w = { t with pairing := t.pairing.declare key v })
      (Meets.modify trivial rfl) fun _ w _ hw => ?_
    subst hw
    refine Meets.bind (P := fun _ w => w = t.withSignature key v) (Meets.modify trivial rfl)
      fun _ w _ hw => Meets.pure fun x hx => ?_
    subst hw
    refine (hbodies x hx).imp_right fun hxv => .inr ⟨key, .singleton v, ?_, ?_⟩
    · simp [withSignature, OrderedMap.find?_insert]
    · exact (VarSet.mem_singleton v x).2 hxv

theorem implicitPrototype_accrues (func : DeclId) (hs : s.WellFormed) :
    Meets .accrues (implicitPrototype u func) s fun _ _ => True := by
  refine Meets.any (Meets.of_faulty (implicitPrototype_houses func s).run
    (implicitPrototype_faulty func hs) fun set t ⟨hends, hbodies⟩ _ => ?_)
  have hst : s.Visits t := ((implicitPrototype_recalls u func hs).of_ends hends).1
  exact ⟨hst.wellFormed hs, hst.toFollows.accrues hbodies⟩

theorem accrues_of_unbodied (h : s.Follows t) (hbodies : Frame.unbodied.rel s t) :
    Frame.accrues.rel s t := fun hs =>
  ⟨h.wellFormed hs, h.accrues fun v hv => .inl (hbodies v hv)⟩

/-- What is recalled and makes no function with a body leaves what a request may leave behind. -/
theorem recalls_accrues {α : Type} {x : Op α} {P : α → Session → Prop}
    (h : Recalls .visits x s P) (hbodies : Stays .unbodied x) :
    Recalls (Frame.visits.inf .accrues) x s P :=
  Meets.mono ((h.inf (hbodies s)).widen fun _ hst =>
    ⟨hst.1, accrues_of_unbodied hst.1.toFollows hst.2⟩)
    fun _ _ _ ⟨⟨hp, hr⟩, _⟩ => ⟨hp, fun w hw => hr w hw.1⟩

theorem admitsDenoting_accrues (u : TranslationUnit) :
    AdmitsDenoting (Frame.visits.inf .accrues) u where
  visits _ h := h.1
  implicit func hs hfunc hnone := Meets.mono
    (((admitsDenoting_visits u).implicit func hs hfunc hnone).inf
      (implicitPrototype_accrues func hs)) fun _ _ _ ⟨⟨hp, hr⟩, _⟩ => ⟨hp, fun w hw => hr w hw.1⟩
  pointee v hs hv := recalls_accrues ((admitsDenoting_visits u).pointee v hs hv)
    (dereferenceOne_unbodied v)
  literal e value hs hx := recalls_accrues ((admitsDenoting_visits u).literal e value hs hx)
    (literalVariable_unbodied e value)
  unknown call hs := recalls_accrues ((admitsDenoting_visits u).unknown call hs)
    (unknownCallee_unbodied call)

/-! ## Requests -/

theorem opened_accrues {o : Option OpenUnit}
    (h : s.WellFormed → { s with opened := o : Session }.WellFormed) :
    Frame.accrues.rel s { s with opened := o } :=
  accrues_of_unbodied ⟨.of_tables rfl rfl rfl rfl h, rfl, rfl, fun _ _ => id, fun _ _ => id⟩
    (unbodied_of_arena rfl)

theorem candidates_accrues {o : OpenUnit} (ho : s.opened = some o)
    (found : List (DeclId × List ExprId)) :
    Frame.accrues.rel s { s with opened := some { o with candidates := found } } :=
  opened_accrues fun hs => ((VisitStep.collects ho found).visits hs).wellFormed hs

theorem accrues_of_records (h : s.Records t) : Frame.accrues.rel s t :=
  accrues_of_unbodied h.creates.visits.toFollows h.unbodied

theorem admitsFlowing_accrues (u : TranslationUnit) : Frame.accrues.AdmitsFlowing u where
  records := accrues_of_records
  candidates := candidates_accrues
  denotes e view := Stays.of_meets (fun hs hwf => absurd hwf hs) fun _ hs =>
    (denote_recalls_of (admitsDenoting_accrues u) e view hs).widen fun _ h => h.2
  denotesDecl d view := Stays.of_meets (fun hs hwf => absurd hwf hs) fun _ hs =>
    (denoteDecl_recalls_of (admitsDenoting_accrues u) d view hs).widen fun _ h => h.2

theorem noteFunction_faulty (func : DeclId) (s : Session) :
    FailsOnly Faulty (noteFunction u func) s := by
  apply (requireOpen_faulty u s).bind
  intro _ z hz
  obtain rfl := eq_of_requireOpen hz
  apply FailsOnly.bind_lift
  intro d _
  split
  · apply FailsOnly.bind_modify
    apply FailsOnly.bind_get
    dsimp only
    split
    · exact .of_ends (a := ⟨⟩) (ends_modify.2 rfl)
    · exact .pure
  · exact .pure

/-- Noting changes neither what stands at anchors nor what has a body. -/
theorem noteFunction_accrues (func : DeclId) (s : Session) :
    Meets .accrues (noteFunction u func) s fun _ _ => True := by
  refine Meets.any (Meets.of_faulty (noteFunction_noted u func s).run
    (noteFunction_faulty func s) fun _ t ⟨hends, d, _, ht⟩ hs => ?_)
  have hst : s.Indexes t := ((noteFunction_meets u func s).of_ends hends).1
  refine ⟨hst.wellFormed hs, hst.accrues ?_ ?_⟩ <;> subst ht <;> split
  · rfl
  · rfl
  · exact ⟨fun _ => .inl, fun _ => .inl⟩
  · exact .refl s

/-- Every request leaves a session with what it may leave behind. -/
theorem Request.run_accrues (r : Request) (hs : s.WellFormed) :
    Meets .accrues r.run s fun _ _ => True := by
  have record {α : Type} {x : Op α} (h : Meets .records x s fun _ _ => True) :
      Meets .accrues (discard x) s fun _ _ => True :=
    Meets.discard (h.widen fun _ => accrues_of_records)
  cases r with
  | enter u =>
    refine Meets.bind_get ?_
    split
    · exact Meets.fault
    · exact Meets.modify (opened_accrues fun hs => (Step.enters u.id u.file).extends hs
        |>.wellFormed hs) trivial
  | exit =>
    refine Meets.bind_get ?_
    split
    · exact Meets.modify (opened_accrues fun hs => (Step.exits.extends hs).wellFormed hs) trivial
    · exact Meets.fault
  | giveVariables u d =>
    exact Meets.discard (Meets.any (Meets.of_faulty (giveVariables_accrues d hs)
      (giveVariables_faulty d hs) fun _ _ hst hs => ⟨hst.wellFormed hs, hst⟩))
  | noteFunction u func => exact noteFunction_accrues func s
  | flagArray u d => exact flagArray_stays candidates_accrues d s
  | addArraySize u d size => exact addArraySize_stays candidates_accrues d size s
  | implicitPrototype u func => exact Meets.discard (implicitPrototype_accrues func hs)
  | denoteDecl u d view => exact ((admitsFlowing_accrues u).denotesDecl d view).discard s
  | denote u e view => exact ((admitsFlowing_accrues u).denotes e view).discard s
  | flow u => exact (flow_stays (admitsFlowing_accrues u)).discard s
  | freshAtom =>
    exact Meets.discard ((((freshAtom_meets s).any.inf (freshAtom_unbodied s)).widen fun _ hst =>
      accrues_of_unbodied (Creates.visits hst.1).toFollows hst.2).any)
  | addConstraint c => exact record (addConstraint_meets c s).any
  | boundBelow v c => exact record (boundBelow_meets v c s).any
  | boundSet set c => exact record (boundSet_meets set c s).any
  | equate a b => exact (equate_meets a b s).any.widen fun _ => accrues_of_records
  | equateSets x y => exact (equateSets_meets x y s).any.widen fun _ => accrues_of_records
  | link => exact record (link_meets s).any
  | repair sol => exact record (repair_repairs sol hs).any

theorem Request.accrues (r : Request) {b : Bool} (hs : s.WellFormed)
    (h : (attempt r.run).Ends s b t) : s.Accrues t := ((r.run_accrues hs).rel_of_attempt h hs).2

/-- Whatever was asked for, every function with a body is in the tables. -/
theorem Reachable.housed (h : Reachable options s) (hv : s.HasBody v) : s.Housed v := by
  induction h with
  | new =>
    obtain ⟨f, hf, -⟩ := hv
    cases hf
  | request r hs hends ih =>
    have hst := r.accrues hs.wellFormed hends
    exact (hst.bodies v hv).elim (fun hold => hst.housed (ih hold)) id

/-- What newly stands at an anchor after some requests owns new atoms. -/
theorem Reachable.accrues {rs : List Request} (hs : Reachable options s)
    (h : (Session.requests rs).Ends s ⟨⟩ t) : s.Accrues t :=
  relates_of_requests Accrues.refl (fun _ _ _ hs hst htw => hst.trans htw hs.wellFormed)
    (fun r _ _ _ _ hs hends => r.accrues hs.wellFormed hends) hs h

end Session

end CheckedPointers
