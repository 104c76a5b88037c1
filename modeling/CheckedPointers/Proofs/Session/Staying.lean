import CheckedPointers.Analysis
import CheckedPointers.Proofs.Session.Creation
import CheckedPointers.Proofs.Session.Linking
import CheckedPointers.Proofs.Source.Closed

/-!
In which ways indexing a unit and following it may change a session. Indexing makes variables, puts
them at anchors and enters functions in the tables. Following makes atoms and variables, records
constraints, remembers things of the open unit and pointers one dereference down, and makes
signatures for functions that the unit has no prototype for. A relation that admits these changes
admits all that indexing or following does, in whatever session it starts.
-/
namespace CheckedPointers

namespace Op

variable {α β : Type} {R : Frame} {x : Op α} {f : α → Op β}

/-- Wherever the operation starts, it changes the session in no other way. -/
def Stays (R : Frame) (x : Op α) : Prop := ∀ s, Meets R x s fun _ _ => True

theorem Stays.pure {a : α} : Stays R (Pure.pure a) := fun _ => Meets.pure trivial

theorem Stays.unresolved {e : ShapeError} : Stays R (unresolved e : Op α) :=
  fun _ => Meets.unresolved

theorem Stays.fault {e : Fault} : Stays R (fault e : Op α) := fun _ => Meets.fault

/-- What is shown where `P` holds is shown, if nothing is asked elsewhere. -/
theorem Stays.of_meets {P : Session → Prop} {Q : Session → α → Session → Prop}
    (hfree : ∀ {s t : Session}, ¬ P s → R.rel s t) (h : ∀ s, P s → Meets R x s (Q s)) :
    Stays R x := by
  intro s
  by_cases hs : P s
  · exact (h s hs).any
  · rcases hx : x s with ⟨(_ | _) | a, t⟩ <;> simp only [Meets, hx]
    · exact hfree hs
    · exact ⟨hfree hs, trivial⟩

theorem Stays.bind (hx : Stays R x) (hf : ∀ a, Stays R (f a)) : Stays R (x >>= f) :=
  fun s => Meets.bind (hx s) fun a t _ _ => hf a t

theorem Stays.bind_get {f : Session → Op β} (hf : ∀ s, Stays R (f s)) :
    Stays R (MonadState.get >>= f) := fun s => Meets.bind_get (hf s s)

theorem Stays.bind_lift {y : Except Fault α} (hf : ∀ a, y = .ok a → Stays R (f a)) :
    Stays R (liftM y >>= f) := fun s => Meets.bind_lift fun a ha => hf a ha s

theorem Stays.bind_current {u : TranslationUnit} {f : OpenUnit → Op β}
    (hf : ∀ o, Stays R (f o)) : Stays R (Session.current u >>= f) :=
  fun s => Meets.bind_current fun o _ => hf o s

theorem Stays.bind_requireOpen {u : TranslationUnit} {f : PUnit → Op β} (hf : Stays R (f ⟨⟩)) :
    Stays R (Session.requireOpen u >>= f) := fun s => Meets.bind_requireOpen fun _ _ => hf s

theorem Stays.map {g : α → β} (hx : Stays R x) : Stays R (g <$> x) := fun s => Meets.map (hx s)

theorem Stays.discard (hx : Stays R x) : Stays R (discard x) := hx.map

theorem Stays.attempt {x : Op PUnit} (hx : Stays R x) : Stays R (attempt x) :=
  fun s => (hx s).attempted

theorem Stays.forM {g : α → Op PUnit} {l : List α} (h : ∀ a ∈ l, Stays R (g a)) :
    Stays R (l.forM g) :=
  fun _ => (Meets.forM (P := fun _ _ => True) (fun _ _ _ _ h => h) fun a ha t _ => h a ha t).any

end Op

open Op TranslationUnit

/-- The relation admits that pointers are made and that variables are put at anchors. -/
structure Frame.AdmitsPlacing (R : Frame) : Prop where
  creates : ∀ (s : Session) (solver : ConstraintSystem) (arena : Arena),
    R.rel s { s with solver := solver, arena := arena }
  stores : ∀ (s : Session) (index : OrderedMap Anchor VarSet), R.rel s { s with index := index }

structure Frame.AdmitsIndexing (R : Frame) : Prop extends R.AdmitsPlacing where
  pairs : ∀ (s : Session) (pairing : Pairing), R.rel s { s with pairing := pairing }
  externs : ∀ (s : Session) (m : OrderedMap String Bool), R.rel s { s with externs := m }
  globals : ∀ (s : Session) (m : OrderedMap String VarSet), R.rel s { s with globals := m }

structure Frame.AdmitsFollowing (R : Frame) (u : TranslationUnit) : Prop where
  creates : ∀ (s : Session) (solver : ConstraintSystem) (arena : Arena),
    R.rel s { s with solver := solver, arena := arena }
  opened : ∀ (s : Session) (o : OpenUnit), R.rel s { s with opened := some o }
  pointees : ∀ (s : Session) (m : OrderedMap VarId (Option VarId)), R.rel s { s with pointees := m }
  implicit : ∀ func, u.IsFunction func → u.prototypeOf func = .ok none →
    Stays R (Session.implicitPrototype u func)

structure Frame.AdmitsFlowing (R : Frame) (u : TranslationUnit) : Prop where
  records : ∀ {s t : Session}, s.Records t → R.rel s t
  candidates : ∀ {s : Session} {o : OpenUnit}, s.opened = some o → ∀ found,
    R.rel s { s with opened := some { o with candidates := found } }
  denotes : ∀ e view, Stays R (Session.denote u e view)
  denotesDecl : ∀ d view, Stays R (Session.denoteDecl u d view)

namespace Session

variable {R : Frame} {u : TranslationUnit} {α : Type} {x : Op α} {view : Viewpoint} {e : ExprId}

section

variable {Q : Session → α → Session → Prop}
  (hcreates : ∀ (s : Session) (solver : ConstraintSystem) (arena : Arena),
    R.rel s { s with solver := solver, arena := arena })

include hcreates

theorem Creates.stays (h : ∀ s, Meets .creates x s (Q s)) : Stays R x := by
  intro s
  refine (h s).any.widen fun t (hst : s.Creates t) => ?_
  rw [hst.only]
  exact hcreates s _ _

theorem Records.stays (h : ∀ s, Meets .records x s (Q s)) : Stays R x :=
  Creates.stays hcreates fun s => (h s).to_creates

theorem boundSet_stays (set : VarSet) (c : Category) : Stays R (discard (boundSet set c)) :=
  (Records.stays hcreates fun s => boundSet_meets set c s).discard

end

/-! ## Indexing -/

section

variable (hR : R.AdmitsPlacing)

include hR

theorem store_stays (anchor : Anchor) (set : VarSet) : Stays R (store anchor set) :=
  fun s => Meets.modify (hR.stores s _) trivial

theorem storeSlots_stays (slots : List (DeclId × VarSet)) : Stays R (storeSlots u slots) := by
  induction slots with
  | nil => exact .pure
  | cons e rest ih =>
    exact Stays.bind_lift fun d _ => (store_stays hR d.anchor e.2).bind fun _ => ih

theorem givePointer_stays (d : Decl) (ty : CType) : Stays R (givePointer d ty) := by
  apply Stays.bind_get
  intro s
  split
  · apply (Creates.stays hR.creates fun s => newPointer_meets ty d.name d.itype? s).bind
    exact fun v => (store_stays hR _ _).bind fun _ => .pure
  · exact .pure

end

section

variable (hR : R.AdmitsIndexing)

include hR

/-- Recording goes through the two tables and the anchors of parameters. -/
theorem recordFunction_stays (func : DeclId) (v : VarId) : Stays R (recordFunction u func v) := by
  have hupdate : ∀ f, Stays R (updatePairing f) := fun f s => Meets.modify (hR.pairs s _) trivial
  apply Stays.bind_lift
  intro d _
  have hslots : Stays R (do
      let slots := (((← get).arena.function? v).map FunctionVariable.params).getD []
      storeSlots u (d.params.zip slots)) :=
    Stays.bind_get fun s => storeSlots_stays hR.toAdmitsPlacing _
  dsimp only
  split
  · apply (hupdate _).bind
    intro _
    apply Stays.bind_lift
    intro prototype _
    split
    · exact Stays.bind_lift fun key _ => (hupdate _).bind fun _ => hslots
    · exact hslots
  · exact (hupdate _).bind fun _ => hslots

theorem giveFunction_stays (func : DeclId) (d : Decl) (ty : CType) :
    Stays R (giveFunction u func d ty) := by
  apply Stays.bind_get
  intro s
  split
  · apply (Creates.stays hR.creates fun s => newFunction_meets u func s).bind
    intro v
    apply (store_stays hR.toAdmitsPlacing _ _).bind
    exact fun _ => (recordFunction_stays hR func v).bind fun _ => .pure
  · exact .pure

/-- All that giving variables does is admitted. -/
theorem giveVariables_stays (id : DeclId) : Stays R (giveVariables u id) := by
  apply Stays.bind_requireOpen
  apply Stays.bind_lift
  intro d _
  split
  · apply (giveFunction_stays hR id d _).bind
    intro _
    apply (givePointer_stays hR.toAdmitsPlacing d _).bind
    intro _
    dsimp only
    split
    · apply Stays.bind_get
      intro s
      split
      · exact (boundSet_stays hR.creates _ .leastSafe).bind fun _ => .pure
      · exact .pure
    · exact .pure
  · exact .pure

theorem noteFunction_stays (func : DeclId) : Stays R (noteFunction u func) := by
  apply Stays.bind_requireOpen
  apply Stays.bind_lift
  intro d _
  split
  · apply Stays.bind fun s => Meets.modify (hR.externs s _) trivial
    intro _
    apply Stays.bind_get
    intro s
    dsimp only
    split
    · exact fun s => Meets.modify (hR.globals s _) trivial
    · exact .pure
  · exact .pure

/-- All that indexing some declarators does is admitted. -/
theorem indexAll_stays (ids : List DeclId) : Stays R (indexAll u ids) := by
  induction ids with
  | nil => exact .pure
  | cons id rest ih =>
    apply (giveVariables_stays hR id).bind
    intro made
    apply Stays.bind_lift
    intro d _
    have hrest : Stays R (do
        let others ← indexAll u rest
        return if made then id :: others else others) := ih.bind fun _ => .pure
    dsimp only
    split
    · exact (noteFunction_stays hR id).bind fun _ => hrest
    · exact hrest

end

section

variable (hR : R.AdmitsFollowing u)

include hR

theorem allocate_stays (v : Variable) : Stays R (allocate v) :=
  fun s => Meets.modifyGet (hR.creates s _ _) trivial

theorem setOpen_stays (o : OpenUnit) : Stays R (setOpen o) :=
  fun s => Meets.modify (hR.opened s o) trivial

/-! ## Declarations -/

omit hR in
theorem storedFor_stays (d : DeclId) : Stays R (storedFor u d) :=
  Stays.bind_get fun _ => Stays.bind_lift fun _ _ => .pure

omit hR in
theorem storedParam_stays (func : DeclId) (i : Nat) : Stays R (storedParam u func i) := by
  apply Stays.bind_lift
  intro d _
  split
  · exact storedFor_stays _
  · exact .pure

theorem denoteFunction_stays {func : DeclId} (hfunc : u.IsFunction func) :
    Stays R (denoteFunction u func) := by
  apply Stays.bind_lift
  intro prototype hprototype
  split
  · exact storedFor_stays _
  · exact hR.implicit func hfunc hprototype

/-- Looking up a parameter makes no more than a signature on demand. -/
theorem denoteParam_stays {owner : DeclId} (howner : u.IsFunction owner) (i : Nat) :
    Stays R (denoteParam u owner i view) := by
  cases view with
  | body =>
    apply Stays.bind_lift
    intro definition _
    split
    · exact storedParam_stays _ i
    · exact Stays.bind_lift fun _ _ => .unresolved
  | declaration =>
    apply Stays.bind_lift
    intro prototype hprototype
    split
    · exact storedParam_stays _ i
    · exact (hR.implicit owner howner hprototype).bind fun _ => Stays.bind_get fun _ => .pure

theorem denoteDecl_stays (id : DeclId) : Stays R (denoteDecl u id view) := by
  apply Stays.bind_requireOpen
  apply Stays.bind_lift
  intro d hd
  apply Stays.bind_get
  intro _
  split
  · exact .pure
  · split
    · next hfun => exact denoteFunction_stays hR ⟨d, hd, hfun⟩
    · split
      · obtain ⟨o, ho, howner⟩ := parameterPosition_gives (lt_of_decl hd)
        rw [ho]
        rcases o with _ | ⟨owner, i⟩
        · exact .unresolved
        · exact denoteParam_stays hR (howner owner i rfl) i
      · exact Stays.bind_get fun _ => .pure

/-! ## Expressions -/

theorem dereferenceOne_stays (v : VarId) : Stays R (dereferenceOne v) := by
  have hkeep : ∀ made, Stays R (do
      modify fun s => { s with pointees := s.pointees.insert v made }
      return made) := fun made =>
    Stays.bind (fun s => Meets.modify (hR.pointees s _) trivial) fun _ => .pure
  apply Stays.bind_get
  intro s
  split
  · exact .pure
  · apply Stays.bind_get
    intro t
    split
    · exact (allocate_stays hR _).map.bind hkeep
    · exact Stays.pure.bind hkeep

theorem dereferenceAll_stays (vs : List VarId) : Stays R (dereferenceAll vs) := by
  induction vs with
  | nil => exact .pure
  | cons v rest ih => exact (dereferenceOne_stays hR v).bind fun _ => ih.bind fun _ => .pure

theorem literalVariable_stays (value : String) : Stays R (literalVariable u e value) := by
  apply Stays.bind_current
  intro o
  split
  · exact .pure
  · apply (Creates.stays hR.creates freshAtom_meets).bind
    intro a
    apply (Records.stays hR.creates fun s => addConstraint_meets _ s).discard.bind
    intro _
    apply (allocate_stays hR _).bind
    exact fun v => Stays.bind_current fun o => (setOpen_stays hR _).bind fun _ => .pure

theorem unknownCallee_stays : Stays R (unknownCallee u e) := by
  apply Stays.bind_current
  intro o
  split
  · exact .pure
  · apply (allocate_stays hR _).bind
    exact fun v => Stays.bind_current fun o => (setOpen_stays hR _).bind fun _ => .pure

theorem denoteCall_stays (target : DeclId) : Stays R (denoteCall u e target) := by
  apply Stays.bind_lift
  intro d _
  split
  · exact .unresolved
  · apply (denoteDecl_stays hR target).bind
    intro found
    apply Stays.bind_get
    intro s
    dsimp only
    split
    · exact .pure
    · exact (unknownCallee_stays hR).bind fun _ => .pure

/-- All that is made while an expression is looked at is admitted: one case for each kind. -/
theorem denoteWithin_stays (n : Nat) : Stays R (denoteWithin u n e view) := by
  induction n generalizing e view with
  | zero => exact .unresolved
  | succ n ih =>
    apply Stays.bind_lift
    intro x _
    cases x with
    | paren _ | implicitCast _ | bindTemporary _ => exact ih
    | declRef d => exact denoteDecl_stays hR d
    | member _ d => exact denoteDecl_stays hR d
    | binary _ lhs rhs => exact ih.bind fun _ => ih.bind fun _ => .pure
    | subscript base _ => exact ih.bind fun set => dereferenceAll_stays hR set.members
    | unary op operand =>
      cases op with
      | deref =>
        apply ih.bind
        intro set
        apply Stays.bind_get
        intro s
        split
        · exact .unresolved
        · exact dereferenceAll_stays hR set.members
      | addrOf | neg | not => exact ih
    | call callee args =>
      apply Stays.bind_lift
      intro target _
      split
      · exact denoteCall_stays hR _
      · exact ih.bind fun _ => Stays.bind_get fun _ => .pure
    | conditional cond whenTrue whenFalse =>
      exact ih.bind fun _ => ih.bind fun _ => ih.bind fun _ => .pure
    | stringLiteral value => exact (literalVariable_stays hR value).bind fun _ => .pure
    | intLiteral _ | cast _ _ | sizeOf _ => exact .pure

theorem denote_stays : Stays R (denote u e view) :=
  Stays.bind_requireOpen (denoteWithin_stays hR _)

end

end Session

theorem Frame.AdmitsFollowing.flowing {R : Frame} {u : TranslationUnit}
    (hR : R.AdmitsFollowing u) : R.AdmitsFlowing u where
  records {s t} hst := by
    rw [hst.only]
    exact hR.creates s _ s.arena
  candidates _ _ := hR.opened _ _
  denotes _ _ := Session.denote_stays hR
  denotesDecl d _ := Session.denoteDecl_stays hR d

namespace Session

variable {R : Frame} {u : TranslationUnit} {α : Type} {x : Op α} {view : Viewpoint} {e : ExprId}

section

variable (hcandidates : ∀ {s : Session} {o : OpenUnit}, s.opened = some o → ∀ found,
  R.rel s { s with opened := some { o with candidates := found } })

include hcandidates

/-! ## Assignments and calls -/

theorem flagArray_stays (target : DeclId) : Stays R (flagArray u target) := by
  intro s
  refine Meets.bind_current fun o ho => Meets.modify ?_ trivial
  unfold OpenUnit.addCandidate
  split
  · exact hcandidates ho.1 o.candidates
  · exact hcandidates ho.1 _

theorem addArraySize_stays (target : DeclId) (size : ExprId) :
    Stays R (addArraySize u target size) := by
  intro s
  refine Meets.bind_current fun o ho => ?_
  split
  · exact Meets.modify (hcandidates ho.1 _) trivial
  · exact Meets.bind_lift fun _ _ => Meets.fault

theorem noteAllocation_stays (target : DeclId) : Stays R (noteAllocation u target e) := by
  apply Stays.bind_lift
  intro size _
  split
  · exact (flagArray_stays hcandidates target).bind fun _ => addArraySize_stays hcandidates target _
  · exact .pure

end

section

variable (hR : R.AdmitsFlowing u)

include hR

theorem recording_stays {Q : Session → α → Session → Prop} (h : ∀ s, Meets .records x s (Q s)) :
    Stays R x := fun s => (h s).any.widen fun _ => hR.records

theorem flowThroughCast_stays (targets : VarSet) (ty : CType) :
    Stays R (flowThroughCast u view targets ty e) := by
  apply Stays.bind_get
  intro s
  apply Stays.bind_lift
  intro allowed _
  split
  · exact .pure
  · apply (hR.denotes _ _).bind
    intro set
    have hequate := recording_stays hR fun s => equateSets_meets targets set s
    apply Stays.bind_lift
    intro declared _
    dsimp only
    split
    · split
      · apply (recording_stays hR fun s => boundSet_meets set .leastSafe s).discard.bind
        exact fun _ => hequate
      · exact hequate
    · exact hequate

/-- A value that flows changes sessions as looking it up and equating do. -/
theorem flowInto_stays (targets : VarSet) (named : Option DeclId) :
    Stays R (flowInto u view targets named e) := by
  have hvalue : Stays R (flowInto u view targets none e) := by
    apply Stays.bind_lift
    intro core _
    apply Stays.bind_lift
    intro y _
    split
    · exact flowThroughCast_stays hR targets _
    · apply Stays.bind_get
      intro s
      apply Stays.bind_lift
      intro allowed _
      split
      · exact .pure
      · apply (hR.denotes _ _).bind
        exact fun set => recording_stays hR fun s => equateSets_meets targets set s
  cases named with
  | none => exact hvalue
  | some target => exact (noteAllocation_stays hR.candidates target).bind fun _ => hvalue

theorem needBounds_stays : Stays R (needBounds u view e) := by
  apply (hR.denotes _ _).bind
  intro set
  apply Stays.forM
  intro v _
  apply Stays.bind_get
  intro s
  split
  · exact (recording_stays hR fun s => addConstraint_meets _ s).discard
  · exact .pure

theorem passArguments_stays (slots : List VarSet) (args : List ExprId) :
    Stays R (passArguments u view slots args) := by
  induction args generalizing slots with
  | nil =>
    rw [passArguments]
    exact .pure
  | cons arg rest ih =>
    rw [passArguments]
    apply (hR.denotes _ _).bind
    intro values
    cases slots with
    | nil =>
      apply (recording_stays hR fun s => boundSet_meets values .leastSafe s).discard.bind
      exact fun _ => ih []
    | cons slot slots =>
      apply (recording_stays hR fun s => equateSets_meets slot values s).bind
      exact fun _ => ih slots

theorem calleeVariables_stays (call : ExprId) : Stays R (calleeVariables u view call e) := by
  apply Stays.bind_lift
  intro target _
  split
  · apply Stays.bind_lift
    intro d _
    split
    · exact hR.denotesDecl _ _
    · exact .unresolved
  · exact hR.denotes _ _

theorem followCall_stays (call : ExprId) (args : List ExprId) :
    Stays R (followCall u view call e args) := by
  apply Stays.bind_get
  intro s
  apply Stays.bind_lift
  intro allowed _
  split
  · exact .pure
  · apply (calleeVariables_stays hR call).bind
    intro candidates
    apply Stays.bind_get
    intro t
    dsimp only
    split
    · exact passArguments_stays hR _ args
    · exact .pure

/-! ## Expressions and statements followed -/

/-- One case for each kind of node, by what that kind does. -/
theorem followNode_stays (y : Expr) : Stays R (followNode u view e y) := by
  cases y with
  | subscript base index =>
    apply Stays.bind_lift
    intro zero _
    split
    · exact needBounds_stays hR
    · exact .pure
  | binary op lhs rhs =>
    cases op with
    | assign =>
      exact (hR.denotes _ _).bind fun targets => Stays.bind_lift fun named _ =>
        flowInto_stays hR targets named
    | _ => exact .pure
  | call callee args => exact followCall_stays hR e args
  | stringLiteral _ => exact (hR.denotes _ _).discard
  | _ => exact .pure

theorem followWithin_stays (n : Nat) : Stays R (followWithin u view n e) := by
  induction n generalizing e with
  | zero => exact .unresolved
  | succ n ih =>
    apply Stays.bind_lift
    intro y _
    exact (followNode_stays hR y).bind fun _ => Stays.forM fun _ _ => ih

theorem followInitializer_stays (d : DeclId) : Stays R (followInitializer u view d e) :=
  (hR.denotesDecl d view).bind fun targets => (flowInto_stays hR targets (some d)).bind fun _ =>
    followWithin_stays hR _

theorem followReturn_stays (func : DeclId) : Stays R (followReturn u func e) := by
  have hreturns : Stays R (declaredReturns u func) :=
    (storedFor_stays func).bind fun _ => Stays.bind_get fun _ => .pure
  exact hreturns.bind fun returns => (flowInto_stays hR returns none).bind fun _ =>
    followWithin_stays hR _

theorem followStmt_stays (func : DeclId) (st : Stmt) : Stays R (followStmt u func st) := by
  cases st with
  | expr e => exact followWithin_stays hR _
  | ret value =>
    cases value with
    | some value => exact followReturn_stays hR func
    | none => exact .pure
  | block _ => exact .pure
  | decl d =>
    apply Stays.bind_lift
    intro decl _
    split
    · exact followInitializer_stays hR d
    · exact .pure

end

theorem countStatement_stays {y : Op PUnit} (h : Stays R y) : Stays R (countStatement y) := by
  apply h.attempt.bind
  intro b
  split <;> exact .pure

theorem flowStmts_stays (hR : R.AdmitsFlowing u) (func : DeclId) (sts : List Stmt) :
    Stays R (flowStmts u func sts) := by
  induction sts with
  | nil => exact .pure
  | cons st rest ih =>
    apply (countStatement_stays (followStmt_stays hR func st)).bind
    exact fun _ => ih.bind fun _ => .pure

/-- Whatever following a declaration does is admitted. -/
theorem flowDecl_stays (hR : R.AdmitsFlowing u) (id : DeclId) : Stays R (flowDecl u id) := by
  apply Stays.bind_lift
  intro d _
  split
  · exact countStatement_stays (followInitializer_stays hR id)
  · exact (flowStmts_stays hR id _).bind fun _ => .pure
  · exact .pure

theorem flowDecls_stays (hR : R.AdmitsFlowing u) (ids : List DeclId) :
    Stays R (flowDecls u ids) := by
  induction ids with
  | nil => exact .pure
  | cons id rest ih => exact (flowDecl_stays hR id).bind fun _ => ih.bind fun _ => .pure

/-- Following a unit changes the session only in ways that the relation admits. -/
theorem flow_stays (hR : R.AdmitsFlowing u) : Stays R (flow u) := flowDecls_stays hR u.topLevel

/-- So does following several units one after another, if it also admits that they are opened and
closed. -/
theorem flowUnits_stays {units : List TranslationUnit} (hR : ∀ u ∈ units, R.AdmitsFollowing u)
    (hclosed : ∀ s : Session, R.rel s { s with opened := none }) : Stays R (flowUnits units) := by
  induction units with
  | nil => exact .pure
  | cons u rest ih =>
    have hfirst := hR u List.mem_cons_self
    have henter : Stays R (enter u) := by
      apply Stays.bind_get
      intro s
      split
      · exact .fault
      · exact fun t => Meets.modify (hfirst.opened t _) trivial
    have hexit : Stays R exit := by
      apply Stays.bind_get
      intro s
      split
      · exact fun t => Meets.modify (hclosed t) trivial
      · exact .fault
    apply henter.bind
    intro _
    apply (flow_stays hfirst.flowing).bind
    intro _
    apply hexit.bind
    exact fun _ => (ih fun v hv => hR v (List.mem_cons_of_mem u hv)).bind fun _ => .pure

end Session

end CheckedPointers
