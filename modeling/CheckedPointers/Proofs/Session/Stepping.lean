import CheckedPointers.Proofs.Session.Requests
import CheckedPointers.Proofs.Session.Visiting

/-!
Every request takes steps, however it ends, and no step makes a definition of a function without a
body. A session arises if it comes of requests that keep to variables: whether they end, are given
up or fault does not matter.
-/
namespace CheckedPointers

open Op

namespace Session

variable {s t : Session} {u : TranslationUnit} {v : VarId}

def HasBody (s : Session) (v : VarId) : Prop := ∃ f, s.arena.function? v = some f ∧ f.hasBody

/-- One step, after which a new definition has a body. -/
structure Advances (s t : Session) : Prop where
  step : s.Step t
  bodies : ∀ v, t.Registered v → s.Registered v ∨ t.HasBody v

/-- Most steps leave the definitions alone. -/
theorem Advances.of_step (h : s.Step t)
    (hdefinitions : t.pairing.definitions = s.pairing.definitions) : s.Advances t where
  step := h
  bodies v hv := .inl (by rwa [Registered, hdefinitions] at hv)

theorem Advances.defines (key : FunctionKey) (hv : s.Unclaimed v) (hbody : s.HasBody v) :
    s.Advances { s with pairing := s.pairing.define key v } where
  step := .defines key hv
  bodies w hw := by
    rcases Pairing.exists_mem_addTo.1 hw with rfl | hold
    · exact .inr hbody
    · exact .inl hold

/-- A step of a visit makes no definition. -/
theorem VisitStep.advances (h : s.VisitStep t) : s.Advances t := by
  apply Advances.of_step (.visits h)
  cases h with
  | looks h =>
    cases h with
    | builds h => rw [h.only]
    | signs | derives | bottoms | quotes | guesses => rfl
  | records h => rw [h.only]
  | collects => rfl

end Session

def Frame.advancing : Frame := .steps Session.Advances

namespace Session

theorem Advances.advancing (h : s.WellFormed → s.Advances t) : Frame.advancing.rel s t :=
  Frame.steps_single fun hs => ⟨((h hs).step.extends hs).wellFormed hs, h hs⟩

theorem Step.advancing (h : s.Step t)
    (hdefinitions : t.pairing.definitions = s.pairing.definitions) : Frame.advancing.rel s t :=
  Advances.advancing fun _ => .of_step h hdefinitions

end Session

namespace Op

variable {α : Type} {x : Op α} {s : Session}

theorem Leaves.to_advancing (h : Leaves .visiting x s) : Leaves .advancing x s :=
  h.widen fun _ => Frame.steps_mono fun _ _ => Session.VisitStep.advances

theorem Leaves.advancing_to_stepping (h : Leaves .advancing x s) : Leaves .stepping x s :=
  h.widen fun _ => Frame.steps_mono fun _ _ => Session.Advances.step

end Op

namespace Session

variable {s t : Session} {u : TranslationUnit} {v : VarId}

/-! ## Indexing -/

theorem Unclaimed.same (h : s.Unclaimed v) (harena : t.arena = s.arena)
    (hpairing : t.pairing = s.pairing) : t.Unclaimed v := by
  refine ⟨harena ▸ h.function, fun w hw => ?_⟩
  unfold Registered Declared at hw
  rw [hpairing] at hw
  rw [harena]
  exact h.apart w hw

theorem store_advancing (anchor : Anchor) {set : VarSet} (h : ∀ v ∈ set, v < s.arena.size) :
    Leaves .advancing (store anchor set) s :=
  Leaves.modify (Step.advancing (.stores anchor h) rfl)

theorem storeSlots_advancing {slots : List (DeclId × VarSet)}
    (h : ∀ e ∈ slots, ∀ v ∈ e.2, v < s.arena.size) :
    Leaves .advancing (storeSlots u slots) s := by
  induction slots generalizing s with
  | nil => exact .pure
  | cons e rest ih =>
    obtain ⟨he, hrest⟩ := List.forall_mem_cons.1 h
    apply Leaves.bind_lift
    intro d _
    apply (store_advancing d.anchor he).bind
    rintro _ t ⟨⟩
    exact ih hrest

/-- A definition is noted with the body that it has. -/
theorem recordFunction_advancing {func : DeclId} (hv : s.Unclaimed v)
    (hbody : ∀ d, u.decl func = .ok d → d.hasBody → s.HasBody v) :
    Leaves .advancing (recordFunction u func v) s := by
  have hslots : ∀ (d : Decl) t, t.arena = s.arena → Leaves .advancing (do
      let slots := (((← get).arena.function? v).map FunctionVariable.params).getD []
      storeSlots u (d.params.zip slots)) t := by
    intro d t harena
    apply Leaves.intro
    intro ht
    apply Leaves.bind_get
    apply storeSlots_advancing
    intro e he w hw
    obtain ⟨f, hf⟩ := Arena.isFunction_iff.1 (harena ▸ hv.function)
    have hmem := (List.of_mem_zip he).2
    rw [hf] at hmem
    have hslot := ht.arena.slots hf (List.mem_cons_of_mem _ hmem)
    exact Arena.lt_of_isPointer (hslot.isPointer hw)
  apply Leaves.bind_lift
  intro d hd
  dsimp only
  split
  · next hdefines =>
    apply Leaves.bind (Leaves.modify (Advances.advancing fun _ =>
      .defines d.key hv (hbody d hd hdefines)))
    rintro _ t ⟨⟩
    apply Leaves.bind_lift
    intro prototype _
    split
    · apply Leaves.bind_lift
      intro key _
      apply Leaves.bind (Leaves.modify (Step.advancing (.pairs d.key key) rfl))
      rintro _ w ⟨⟩
      exact hslots d _ rfl
    · exact hslots d _ rfl
  · apply Leaves.bind (Leaves.modify (Step.advancing (.declares d.key hv) rfl))
    rintro _ t ⟨⟩
    exact hslots d _ rfl

/-- Giving a function its variable is a number of steps. -/
theorem giveFunction_advancing (func : DeclId) (d : Decl) (ty : CType) :
    Leaves .advancing (giveFunction u func d ty) s := by
  apply Leaves.intro
  intro hs
  apply Leaves.bind_get
  split
  · apply (newFunction_looking func).to_visiting.to_advancing.bind
    intro v t ht
    have hv := newFunction_unclaimed hs ht
    have hlt : ∀ w ∈ VarSet.singleton v, w < t.arena.size := fun w hw =>
      (VarSet.mem_singleton v w).1 hw ▸ Arena.lt_of_isFunction hv.function
    apply (store_advancing d.anchor hlt).bind
    rintro _ w ⟨⟩
    apply Leaves.bind
    · apply recordFunction_advancing
      · exact hv.same rfl rfl
      intro d' hd' hbody
      obtain ⟨d₀, f, hd, -, hf, -, hsame⟩ := ((newFunction_meets u func s).of_ends ht).2
      obtain rfl := Except.ok.inj (hd'.symm.trans hd)
      exact ⟨f, hf, hsame ▸ hbody⟩
    · exact fun _ _ _ => .pure
  · exact .pure

theorem newPointer_advancing (ty : CType) (name : String) (itype : Option String)
    (hs : s.WellFormed) : Leaves .advancing (newPointer ty name itype) s :=
  .of_meets (newPointer_builds ty name itype hs) (newPointer_failsOnly ty name itype)
    fun _ _ _ h => Advances.advancing fun _ => VisitStep.advances (.looks (.builds h.1))

theorem givePointer_advancing (d : Decl) (ty : CType) : Leaves .advancing (givePointer d ty) s := by
  apply Leaves.intro
  intro hs
  apply Leaves.bind_get
  split
  · apply (newPointer_advancing ty d.name d.itype? hs).bind
    intro v t ht
    have hv := ((newPointer_meets ty d.name d.itype? s).of_ends ht).2
    have hlt : ∀ w ∈ VarSet.singleton v, w < t.arena.size := fun w hw =>
      (VarSet.mem_singleton v w).1 hw ▸ Arena.lt_of_isPointer hv
    exact (store_advancing d.anchor hlt).bind fun _ _ _ => .pure
  · exact .pure

/-- Giving a declarator its variables is a number of steps. -/
theorem giveVariables_advancing (id : DeclId) : Leaves .advancing (giveVariables u id) s := by
  apply Leaves.bind_requireOpen
  intro _ _
  apply Leaves.bind_lift
  intro d _
  split
  · apply (giveFunction_advancing id d _).bind
    intro _ t _
    apply (givePointer_advancing d _).bind
    intro _ w _
    dsimp only
    split
    · apply Leaves.bind_get
      split
      · exact (boundSet_visiting _ .leastSafe).to_advancing.discard.bind fun _ _ _ => .pure
      · exact .pure
    · exact .pure
  · exact .pure

theorem noteFunction_advancing (func : DeclId) : Leaves .advancing (noteFunction u func) s := by
  apply Leaves.intro
  intro hs
  apply Leaves.bind_requireOpen
  intro _ _
  apply Leaves.bind_lift
  intro d _
  split
  · apply Leaves.bind (Leaves.modify (Step.advancing (.notesBody _) rfl))
    rintro _ t ⟨⟩
    apply Leaves.bind_get
    dsimp only
    split
    · refine Leaves.modify (Step.advancing (.notesVariants d.name fun v hv => ?_) rfl)
      rcases (VarSet.mem_insertAll _ _ v).1 hv with hv | hv
      · exact (List.mem_filter.1 hv).2
      · exact hs.variant hv
    · exact .pure
  · exact .pure

/-! ## Requests -/

theorem enter_advancing : Leaves .advancing (enter u) s := by
  apply Leaves.bind_get
  split
  · exact .fault
  · exact Leaves.modify (Step.advancing (.enters u.id u.file) rfl)

theorem exit_advancing : Leaves .advancing exit s := by
  apply Leaves.bind_get
  split
  · exact Leaves.modify (Step.advancing .exits rfl)
  · exact .fault

/-- The request keeps to variables: it makes no atom by itself, and what it has recorded by itself
is on atoms that are there. -/
def Request.Lawful (s : Session) : Request → Prop
  | freshAtom => False
  | addConstraint c => c.Known s.solver.cells.size
  | _ => True

def Request.isVisit : Request → Bool
  | enter _ | exit | giveVariables .. | noteFunction .. | freshAtom | addConstraint _ => false
  | _ => true

/-- A visit takes only steps of a visit. -/
theorem Request.run_visiting {r : Request} (hr : r.isVisit) : Leaves .visiting r.run s := by
  cases r with
  | flagArray u d => exact flagArray_visiting d
  | addArraySize u d size => exact addArraySize_visiting d size
  | implicitPrototype u func => exact (implicitPrototype_looking func).to_visiting.discard
  | denoteDecl u d view => exact (denoteDecl_looking d).to_visiting.discard
  | denote u e view => exact denote_visiting.discard
  | flow u => exact flow_visiting.discard
  | boundBelow v c => exact (boundBelow_visiting v c).discard
  | boundSet set c => exact (boundSet_visiting set c).discard
  | equate a b => exact equate_visiting a b
  | equateSets x y => exact equateSets_visiting x y
  | link => exact link_visiting.discard
  | repair sol => exact repair_visiting.discard
  | enter u | exit | giveVariables u d | noteFunction u func => cases hr
  | freshAtom | addConstraint c => cases hr

/-- Every lawful request is a number of steps. -/
theorem Request.run_advancing {r : Request} (hr : r.Lawful s) : Leaves .advancing r.run s := by
  by_cases hvisit : r.isVisit
  · exact (r.run_visiting hvisit).to_advancing
  · cases r with
    | enter u => exact enter_advancing
    | exit => exact exit_advancing
    | giveVariables u d => exact (giveVariables_advancing d).discard
    | noteFunction u func => exact noteFunction_advancing func
    | freshAtom => exact hr.elim
    | addConstraint c => exact (addConstraint_visiting hr).to_advancing.discard
    | _ => exact absurd rfl hvisit

theorem Request.run_stepping {r : Request} (hr : r.Lawful s) : Leaves .stepping r.run s :=
  (r.run_advancing hr).advancing_to_stepping

/-- One session comes of another by lawful requests, whatever becomes of each. -/
inductive Continues (s : Session) : Session → Prop where
  | refl : Continues s s
  | request {t : Session} (r : Request) (h : Continues s t) (hr : r.Lawful t) :
      Continues s (r.run t).2

def Arises (options : Options) (s : Session) : Prop := (new options).Continues s

def after (s : Session) (rs : List Request) : Session := rs.foldl (fun s r => (r.run s).2) s

variable {options : Options}

theorem Continues.trans {w : Session} (h : s.Continues t) (h' : t.Continues w) :
    s.Continues w := by
  induction h' with
  | refl => exact h
  | request r _ hr ih => exact ih.request r hr

theorem Continues.after {rs : List Request} (h : ∀ r ∈ rs, ∀ t, r.Lawful t) :
    s.Continues (s.after rs) := by
  induction rs generalizing s with
  | nil => exact .refl
  | cons r rest ih =>
    obtain ⟨hr, hrest⟩ := List.forall_mem_cons.1 h
    exact (Continues.refl.request r (hr s)).trans (ih hrest)

theorem Continues.stepping (h : s.Continues t) : Frame.stepping.rel s t := by
  induction h with
  | refl => exact Frame.stepping.refl s
  | request r _ hr ih => exact Frame.stepping.trans ih (r.run_stepping hr)

theorem Arises.stepping (h : Arises options s) : Frame.stepping.rel (new options) s :=
  Continues.stepping h

/-- What holds at first and what every step keeps holds of every session that arises. -/
theorem Arises.keeps {P : Session → Prop} (hnew : P (new options))
    (hstep : ∀ s t, s.WellFormed → s.Step t → P s → P t) (h : Arises options s) : P s :=
  stepping_keeps hstep h.stepping (wellFormed_new options) hnew

theorem Arises.wellFormed (h : Arises options s) : s.WellFormed :=
  (h.stepping (wellFormed_new options)).1

end Session

end CheckedPointers
