import CheckedPointers.Proofs.Session.Keeping

/-!
Which requests touch the tables of declarations. Two that index a declaration do, and so does a
signature made on demand; whatever else is asked for leaves the tables as they are. A relation that
admits these three, and does not look beyond the tables, admits every request.
-/
namespace CheckedPointers

open Op

namespace Session

variable {s t : Session} {u : TranslationUnit} {v : VarId} {α : Type} {x : Op α}

structure SameDeclarations (s t : Session) : Prop where
  index : t.index = s.index
  globals : t.globals = s.globals
  implicits : t.implicits = s.implicits
  pairing : t.pairing = s.pairing

theorem SameDeclarations.refl (s : Session) : s.SameDeclarations s := ⟨rfl, rfl, rfl, rfl⟩

theorem SameDeclarations.trans {w : Session} (h : s.SameDeclarations t)
    (h' : t.SameDeclarations w) : s.SameDeclarations w :=
  ⟨h'.index.trans h.index, h'.globals.trans h.globals, h'.implicits.trans h.implicits,
    h'.pairing.trans h.pairing⟩

theorem Creates.sameDeclarations (h : s.Creates t) : s.SameDeclarations t := by
  constructor <;> rw [h.only]

end Session

def Frame.sameDeclarations : Frame := ⟨Session.SameDeclarations, .refl, .trans⟩

namespace Session

variable {s t : Session} {u : TranslationUnit} {v : VarId} {α : Type} {x : Op α}

theorem allocate_sameDeclarations (x : Variable) : Stays .sameDeclarations (allocate x) :=
  fun _ => Meets.modifyGet ⟨rfl, rfl, rfl, rfl⟩ trivial

theorem setOpen_sameDeclarations (o : OpenUnit) : Stays .sameDeclarations (setOpen o) :=
  fun _ => Meets.modify ⟨rfl, rfl, rfl, rfl⟩ trivial

theorem dereferenceOne_sameDeclarations (v : VarId) :
    Stays .sameDeclarations (dereferenceOne v) := by
  have hkeep : ∀ made, Stays .sameDeclarations (do
      modify fun s => { s with pointees := s.pointees.insert v made }
      return made) := fun made =>
    Stays.bind (fun _ => Meets.modify ⟨rfl, rfl, rfl, rfl⟩ trivial) fun _ => .pure
  apply Stays.bind_get
  intro s
  split
  · exact .pure
  · apply Stays.bind_get
    intro t
    split
    · exact (allocate_sameDeclarations _).map.bind hkeep
    · exact Stays.pure.bind hkeep

theorem literalVariable_sameDeclarations (e : ExprId) (value : String) :
    Stays .sameDeclarations (literalVariable u e value) := by
  apply Stays.bind_current
  intro o
  split
  · exact .pure
  · have hfresh : Stays .sameDeclarations freshAtom :=
      fun _ => Meets.modifyGet ⟨rfl, rfl, rfl, rfl⟩ trivial
    apply hfresh.bind
    intro a
    have hbound : Stays .sameDeclarations (addConstraint (.atLeast a .ntArr)) := fun s =>
      (addConstraint_meets _ s).any.widen fun _ hst => hst.creates.sameDeclarations
    apply hbound.discard.bind
    intro _
    apply (allocate_sameDeclarations _).bind
    exact fun v => Stays.bind_current fun o => (setOpen_sameDeclarations _).bind fun _ => .pure

theorem unknownCallee_sameDeclarations (e : ExprId) :
    Stays .sameDeclarations (unknownCallee u e) := by
  apply Stays.bind_current
  intro o
  split
  · exact .pure
  · apply (allocate_sameDeclarations _).bind
    exact fun v => Stays.bind_current fun o => (setOpen_sameDeclarations _).bind fun _ => .pure

end Session

/-- The relation says nothing of sessions that are not well formed, nor of changes beside the tables
of declarations, and admits what declarations of the units `U` are put into the tables. -/
structure Frame.AdmitsDeclaring (R : Frame) (U : TranslationUnit → Prop) : Prop where
  free : ∀ {s t : Session}, ¬ s.WellFormed → R.rel s t
  same : ∀ {s t : Session}, s.Extends t → s.SameDeclarations t → R.rel s t
  gives : ∀ {u : TranslationUnit}, U u → ∀ id, Stays R (Session.giveVariables u id)
  notes : ∀ {u : TranslationUnit}, U u → ∀ func, Stays R (Session.noteFunction u func)
  implicit : ∀ {u : TranslationUnit}, U u → ∀ func, Stays R (Session.implicitPrototype u func)

namespace Session

variable {s t : Session} {u : TranslationUnit} {R : Frame}
  {U : TranslationUnit → Prop}

section

variable (hR : R.AdmitsDeclaring U)

include hR

theorem records_declaring (h : s.Records t) : R.rel s t :=
  hR.same h.creates.toExtends h.creates.sameDeclarations

theorem opened_declaring {o : Option OpenUnit}
    (h : s.WellFormed → { s with opened := o : Session }.WellFormed) :
    R.rel s { s with opened := o } :=
  hR.same (.of_tables rfl rfl rfl rfl h) ⟨rfl, rfl, rfl, rfl⟩

theorem candidates_declaring {o : OpenUnit} (ho : s.opened = some o)
    (found : List (DeclId × List ExprId)) :
    R.rel s { s with opened := some { o with candidates := found } } :=
  opened_declaring hR fun hs => ((VisitStep.collects ho found).visits hs).wellFormed hs

/-- What is recalled and leaves the tables of declarations as they are. -/
theorem recalls_declaring {P : α → Session → Prop} (h : Recalls .visits x s P)
    (hsame : Stays .sameDeclarations x) : Recalls (Frame.visits.inf R) x s P :=
  Meets.mono ((h.inf (hsame s)).widen fun _ hst => ⟨hst.1, hR.same hst.1.toExtends hst.2⟩)
    fun _ _ _ ⟨⟨hp, hr⟩, _⟩ => ⟨hp, fun w hw => hr w hw.1⟩

/-- Whatever is denoted puts nothing into the tables of declarations but signatures on demand. -/
theorem admitsDenoting_declaring (hu : U u) : AdmitsDenoting (Frame.visits.inf R) u where
  visits _ h := h.1
  implicit func hs hfunc hnone := Meets.mono
    (((admitsDenoting_visits u).implicit func hs hfunc hnone).inf (hR.implicit hu func _))
    fun _ _ _ ⟨⟨hp, hr⟩, _⟩ => ⟨hp, fun w hw => hr w hw.1⟩
  pointee v hs hv := recalls_declaring hR ((admitsDenoting_visits u).pointee v hs hv)
    (dereferenceOne_sameDeclarations v)
  literal e value hs hx := recalls_declaring hR ((admitsDenoting_visits u).literal e value hs hx)
    (literalVariable_sameDeclarations e value)
  unknown call hs := recalls_declaring hR ((admitsDenoting_visits u).unknown call hs)
    (unknownCallee_sameDeclarations call)

theorem admitsFlowing_declaring (hu : U u) : R.AdmitsFlowing u where
  records := records_declaring hR
  candidates := candidates_declaring hR
  denotes e view := Stays.of_meets hR.free fun _ hs =>
    (denote_recalls_of (admitsDenoting_declaring hR hu) e view hs).widen fun _ h => h.2
  denotesDecl d view := Stays.of_meets hR.free fun _ hs =>
    (denoteDecl_recalls_of (admitsDenoting_declaring hR hu) d view hs).widen fun _ h => h.2

def Request.unit? : Request → Option TranslationUnit
  | enter u | giveVariables u _ | noteFunction u _ | flagArray u _ | addArraySize u _ _
  | implicitPrototype u _ | denoteDecl u _ _ | denote u _ _ | flow u => some u
  | exit | freshAtom | addConstraint _ | boundBelow .. | boundSet .. | equate .. | equateSets ..
  | link | repair _ => none

/-- A request about one of the units, or about none. -/
theorem Request.run_stays (r : Request) (hr : ∀ u ∈ r.unit?, U u) : Stays R r.run := by
  have record {α : Type} {x : Op α} (h : ∀ s, Meets .records x s fun _ _ => True) :
      Stays R (discard x) :=
    Stays.discard fun s => (h s).widen fun _ => records_declaring hR
  have hfollows {u : TranslationUnit} (hu : U u) := admitsFlowing_declaring hR hu
  cases r with
  | enter u =>
    apply Stays.bind_get
    intro s
    split
    · exact .fault
    · exact fun _ => Meets.modify (opened_declaring hR fun hs =>
        ((Step.enters u.id u.file).extends hs).wellFormed hs) trivial
  | exit =>
    apply Stays.bind_get
    intro s
    split
    · exact fun _ => Meets.modify (opened_declaring hR fun hs =>
        (Step.exits.extends hs).wellFormed hs) trivial
    · exact .fault
  | giveVariables u d => exact (hR.gives (hr u rfl) d).discard
  | noteFunction u func => exact hR.notes (hr u rfl) func
  | flagArray u d => exact flagArray_stays (candidates_declaring hR) d
  | addArraySize u d size => exact addArraySize_stays (candidates_declaring hR) d size
  | implicitPrototype u func => exact (hR.implicit (hr u rfl) func).discard
  | denoteDecl u d view => exact ((hfollows (hr u rfl)).denotesDecl d view).discard
  | denote u e view => exact ((hfollows (hr u rfl)).denotes e view).discard
  | flow u => exact (flow_stays (hfollows (hr u rfl))).discard
  | freshAtom =>
    exact Stays.discard fun s => (freshAtom_meets s).any.widen fun _ hst =>
      hR.same hst.toExtends hst.sameDeclarations
  | addConstraint c => exact record fun s => (addConstraint_meets c s).any
  | boundBelow v c => exact record fun s => (boundBelow_meets v c s).any
  | boundSet set c => exact record fun s => (boundSet_meets set c s).any
  | equate a b => exact fun s => (equate_meets a b s).any.widen fun _ => records_declaring hR
  | equateSets x y =>
    exact fun s => (equateSets_meets x y s).any.widen fun _ => records_declaring hR
  | link => exact record fun s => (link_meets s).any
  | repair sol =>
    exact Stays.discard (Stays.of_meets hR.free fun _ hs =>
      (repair_repairs sol hs).any.widen fun _ => records_declaring hR)

end

end Session

end CheckedPointers
