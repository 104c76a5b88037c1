import CheckedPointers.Proofs.Session.Hops
import CheckedPointers.Proofs.Session.Parting

/-!
Where equations come from. Those of two variables are between atoms that the two own, and nothing is
equated by making variables or by looking up what a name or an expression denotes.
-/
namespace CheckedPointers

open Op

namespace Arena

variable {arena : Arena} {n k : Nat} {a b a' b' v : VarId} {x : Atom} {e : Atom × Atom}
  {l : List (Atom × Atom)}

/-! ## The equations of two variables -/

def Between (arena : Arena) (a b : VarId) (e : Atom × Atom) : Prop :=
  (arena.Owns a e.1 ∨ arena.Owns b e.1) ∧ (arena.Owns a e.2 ∨ arena.Owns b e.2)

theorem Between.mono (h : arena.Between a b e) (ha : ∀ x, arena.Owns a x → arena.Owns a' x)
    (hb : ∀ x, arena.Owns b x → arena.Owns b' x) : arena.Between a' b' e :=
  ⟨h.1.imp (ha _) (hb _), h.2.imp (ha _) (hb _)⟩

theorem Between.symm (h : arena.Between a b e) : arena.Between b a e := ⟨h.1.symm, h.2.symm⟩

/-- What the function that a variable denotes owns belongs to the variable. -/
theorem WellFormed.owns_of_reachableFunction? (h : arena.WellFormed n) {f : FunctionVariable}
    (hf : arena.reachableFunction? v = some f) {slot : VarSet} (hslot : slot ∈ f.slots) {p : VarId}
    (hp : p ∈ slot) (hx : arena.Owns p x) : arena.Owns v x := by
  obtain ⟨w, hw, hf⟩ := Option.bind_eq_some_iff.1 hf
  have hown : arena.Owns w x := (h.owns_function hf).2 ⟨slot, hslot, p, hp, hx⟩
  obtain ⟨y, hy, hreach⟩ := Option.bind_eq_some_iff.1 hw
  cases y with
  | pointer q =>
    exact (h.owns_pointer (pointer?_of_getElem? hy)).2 (.inr ⟨w, hreach, hown⟩)
  | function g =>
    obtain rfl := Option.some.inj hreach
    exact hown

/-- The pairs that a walk finds are between the variables that it starts from. -/
def FindsBetween (arena : Arena) (eqs : VarId → VarId → Option (List (Atom × Atom))) : Prop :=
  ∀ {a b : VarId} {l : List (Atom × Atom)}, eqs a b = some l → ∀ e ∈ l, arena.Between a b e

namespace FindsBetween

variable {eqs : VarId → VarId → Option (List (Atom × Atom))} {p q : PointerVariable}
  {f g : FunctionVariable}

theorem cross (heqs : arena.FindsBetween eqs) {s t : VarSet} (h : crossWith eqs s t = some l)
    (he : e ∈ l) : ∃ x ∈ s, ∃ y ∈ t, arena.Between x y e := by
  obtain ⟨x, hx, y, hy, l', hxy, he⟩ := exists_of_crossWith h he
  exact ⟨x, hx, y, hy, heqs hxy e he⟩

/-- Slots of two functions are crossed. -/
theorem slots (h : arena.WellFormed n) (heqs : arena.FindsBetween eqs)
    (hf : arena.function? a = some f) (hg : arena.function? b = some g) {s t : VarSet}
    (hs : s ∈ f.slots) (ht : t ∈ g.slots) (hcross : crossWith eqs s t = some l) (he : e ∈ l) :
    arena.Between a b e := by
  obtain ⟨x, hx, y, hy, hxy⟩ := heqs.cross hcross he
  exact hxy.mono (fun _ ha => (h.owns_function hf).2 ⟨s, hs, x, hx, ha⟩)
    fun _ hb => (h.owns_function hg).2 ⟨t, ht, y, hy, hb⟩

/-! One step of the walk, for each pair of kinds. -/

/-- Two pointers: equations pair their own levels, or come from the functions below. -/
theorem pointers (h : arena.WellFormed n) (heqs : arena.FindsBetween (arena.equationsWithin k))
    (hab : a ≠ b) (hp : arena.pointer? a = some p) (hq : arena.pointer? b = some q)
    (hl : arena.equationsWithin (k + 1) a b = some l) (he : e ∈ l) : arena.Between a b e := by
  have hlevel : ∀ e ∈ p.atoms.zip q.atoms, arena.Between a b e := fun e he =>
    ⟨.inl ((h.owns_pointer hp).2 (.inl (List.of_mem_zip he).1)),
      .inr ((h.owns_pointer hq).2 (.inl (List.of_mem_zip he).2))⟩
  by_cases hnone : p.function = none ∨ q.function = none
  · rw [equationsWithin_pointers hab hp hq hnone] at hl
    obtain rfl := Option.some.inj hl
    exact hlevel e he
  · obtain ⟨hpf, hqf⟩ := not_or.1 hnone
    obtain ⟨f, hf⟩ := Option.ne_none_iff_exists'.1 hpf
    obtain ⟨g, hg⟩ := Option.ne_none_iff_exists'.1 hqf
    rw [equationsWithin_attached hab hp hq hf hg] at hl
    obtain ⟨below, hbelow, rfl⟩ := Option.map_eq_some_iff.1 hl
    rcases List.mem_append.1 he with he | he
    · exact hlevel e he
    · exact (heqs hbelow e he).mono (fun _ hx => (h.owns_pointer hp).2 (.inr ⟨f, hf, hx⟩))
        fun _ hx => (h.owns_pointer hq).2 (.inr ⟨g, hg, hx⟩)

/-- A pointer and a function. -/
theorem mixed (h : arena.WellFormed n) (heqs : arena.FindsBetween (arena.equationsWithin k))
    (hab : a ≠ b) (hp : arena.pointer? a = some p) (hg : arena.function? b = some g)
    (hl : arena.equationsWithin (k + 1) a b = some l) (he : e ∈ l) : arena.Between a b e := by
  cases hf : p.function with
  | none =>
    rw [equationsWithin_returned hab hp hg hf] at hl
    obtain ⟨x, hx, y, hy, hxy⟩ := heqs.cross hl he
    rw [(VarSet.mem_singleton a x).1 hx] at hxy
    exact hxy.mono (fun _ => id) fun _ hown =>
      (h.owns_function hg).2 ⟨g.returns, List.mem_cons_self, y, hy, hown⟩
  | some f =>
    rw [equationsWithin_pointed hab hp hg hf] at hl
    exact (heqs hl e he).mono (fun _ hx => (h.owns_pointer hp).2 (.inr ⟨f, hf, hx⟩)) fun _ => id

/-- Two functions: equations come from returns or from parameters. -/
theorem functions (h : arena.WellFormed n) (heqs : arena.FindsBetween (arena.equationsWithin k))
    (hab : a ≠ b) (hf : arena.function? a = some f) (hg : arena.function? b = some g)
    (hl : arena.equationsWithin (k + 1) a b = some l) (he : e ∈ l) : arena.Between a b e := by
  by_cases hlen : f.params.length = g.params.length
  · rw [equationsWithin_functions hab hf hg hlen] at hl
    obtain ⟨returns, hreturns, hl⟩ := Option.bind_eq_some_iff.1 hl
    obtain ⟨params, hparams, hl⟩ := Option.bind_eq_some_iff.1 hl
    obtain rfl := Option.some.inj hl
    rcases List.mem_append.1 he with he | he
    · exact heqs.slots h hf hg List.mem_cons_self List.mem_cons_self hreturns he
    · obtain ⟨l, hl, he⟩ := List.mem_flatten.1 he
      obtain ⟨slots, hslots, hcross⟩ := mem_of_mapM hparams hl
      obtain ⟨hs, ht⟩ := List.of_mem_zip hslots
      exact heqs.slots h hf hg (List.mem_cons_of_mem _ hs) (List.mem_cons_of_mem _ ht) hcross he
  · rw [equationsWithin_uneven hab hf hg hlen] at hl
    exact heqs.slots h hf hg List.mem_cons_self List.mem_cons_self hl he

end FindsBetween

/-- However deep a walk goes, it equates only what the two variables own. -/
theorem WellFormed.findsBetween (h : arena.WellFormed n) (k : Nat) :
    arena.FindsBetween (arena.equationsWithin k) := by
  induction k with
  | zero => exact fun h => nomatch h
  | succ k ih =>
    intro a b l hl e he
    by_cases hab : a = b
    · rw [equationsWithin, if_pos hab] at hl
      obtain rfl := Option.some.inj hl
      exact absurd he List.not_mem_nil
    obtain ⟨ha, hb⟩ := sizes_of_equationsWithin hab hl
    rcases pointer_or_function ha with ⟨p, -, hp⟩ | ⟨f, -, hf⟩
    · rcases pointer_or_function hb with ⟨q, -, hq⟩ | ⟨g, -, hg⟩
      · exact ih.pointers h hab hp hq hl he
      · exact ih.mixed h hab hp hg hl he
    · rcases pointer_or_function hb with ⟨q, -, hq⟩ | ⟨g, -, hg⟩
      · rw [equationsWithin_comm hq hf] at hl
        exact (ih.mixed h (fun hba => hab hba.symm) hq hf hl he).symm
      · exact ih.functions h hab hf hg hl he

end Arena

/-! ## Nothing is equated -/

namespace Frame

def unequated : Frame where
  rel s t := ∀ a b, .equal a b ∈ t.solver.constraints → .equal a b ∈ s.solver.constraints
  refl _ _ _ := id
  trans h h' a b hab := h a b (h' a b hab)

/-- Things of the open unit are made and remembered and stay parted, and nothing is equated. -/
def quiet : Frame := visits.inf (parts.inf unequated)

end Frame

namespace Session

variable {s t : Session} {u : TranslationUnit}

theorem unequated_of_solver (h : t.solver = s.solver) : Frame.unequated.rel s t := by
  intro a b hab
  rwa [h] at hab

theorem freshAtom_stays : Stays .unequated freshAtom :=
  fun _ => Meets.modifyGet (fun _ _ => id) trivial

theorem freshAtoms_stays (n : Nat) : Stays .unequated (freshAtoms n) := by
  induction n with
  | zero => exact .pure
  | succ n ih => exact freshAtom_stays.bind fun _ => ih.bind fun _ => .pure

theorem allocate_unequated (v : Variable) : Stays .unequated (allocate v) :=
  fun _ => Meets.modifyGet (fun _ _ => id) trivial

theorem setOpen_unequated (o : OpenUnit) : Stays .unequated (setOpen o) :=
  fun _ => Meets.modify (fun _ _ => id) trivial

/-- A constraint that ends up recorded changes the session as the relation admits. -/
theorem addConstraint_changes {R : Frame} {c : Constraint}
    (h : ∀ b t, (addConstraint c).Ends s b t → R.rel s t) :
    Meets R (addConstraint c) s fun _ _ => True := by
  unfold Ends at h
  unfold Meets
  rw [addConstraint_run] at h ⊢
  cases hr : (s.solver.add c).1 with
  | error f => trivial
  | ok b =>
    rw [hr] at h
    exact ⟨h b _ rfl, trivial⟩

theorem addBound_stays (a : Atom) (c : Category) :
    Stays .unequated (addConstraint (.atLeast a c)) := by
  intro s
  refine addConstraint_changes fun b t hends x y hxy => ?_
  rcases ((addConstraint_adds _ s).of_ends hends).2 _ hxy with h | h
  · exact h
  · cases h

theorem boundAtoms_stays (c : Category) (atoms : List Atom) :
    Stays .unequated (boundAtoms c atoms) := by
  induction atoms with
  | nil => exact .pure
  | cons a rest ih => exact (addBound_stays a c).bind fun _ => ih.bind fun _ => .pure

theorem boundBelow_stays (v : VarId) (c : Category) : Stays .unequated (boundBelow v c) := by
  apply Stays.bind_get
  exact fun _ s => Meets.bind_known fun atoms _ => boundAtoms_stays c atoms s

theorem boundSet_unequated (set : VarSet) (c : Category) : Stays .unequated (boundSet set c) := by
  unfold boundSet
  induction set.members with
  | nil => exact .pure
  | cons v rest ih => exact (boundBelow_stays v c).bind fun _ => ih.bind fun _ => .pure

theorem newPointerOver_stays {ty : CType} {name : String} {itype : Option String}
    {pointee : Op (Option VarId)} (h : Stays .unequated pointee) :
    Stays .unequated (newPointerOver ty name itype pointee) :=
  (freshAtoms_stays _).bind fun _ => h.bind fun _ => allocate_unequated _

mutual

theorem newPointee_stays (name : String) : (ty : CType) → Stays .unequated (newPointee name ty)
  | .pointer inner => by
    rw [newPointee]
    exact newPointee_stays name inner
  | .array elem _ => by
    rw [newPointee]
    exact newPointee_stays name elem
  | .typedef _ underlying => by
    rw [newPointee]
    exact newPointee_stays name underlying
  | .function ret params _ _ => by
    rw [newPointee]
    apply (newPointerOver_stays (newPointee_stays name ret)).bind
    intro r
    apply (newSlots_stays params).bind
    exact fun slots => (allocate_unequated _).bind fun _ => .pure
  | .builtin _ => by
    rw [newPointee]
    exact .pure
  | .record _ => by
    rw [newPointee]
    exact .pure

theorem newSlots_stays : (tys : List CType) → Stays .unequated (newSlots tys)
  | [] => by
    rw [newSlots]
    exact .pure
  | ty :: rest => by
    rw [newSlots]
    apply (newPointerOver_stays (newPointee_stays "" ty)).bind
    exact fun p => (newSlots_stays rest).bind fun _ => .pure

end

theorem newParameters_stays (ds : List DeclId) : Stays .unequated (newParameters u ds) := by
  induction ds with
  | nil => exact .pure
  | cons d rest ih =>
    have hfirst : Stays .unequated (newParameter u d) := by
      apply Stays.bind_lift
      intro p _
      apply (newPointerOver_stays (newPointee_stays p.name (p.ty?.getD .int))).bind
      intro v
      dsimp only
      split
      · exact (boundBelow_stays v .leastSafe).discard.bind fun _ => .pure
      · exact .pure
    exact hfirst.bind fun v => ih.bind fun _ => .pure

theorem newFunction_stays (func : DeclId) : Stays .unequated (newFunction u func) := by
  apply Stays.bind_lift
  intro d _
  split
  · next signature params _ _ _ =>
    apply (newPointerOver_stays (newPointee_stays d.name signature.ret)).bind
    exact fun r => (newParameters_stays params).bind fun _ => allocate_unequated _
  · exact .fault

theorem implicitPrototype_stays (func : DeclId) :
    Stays .unequated (implicitPrototype u func) := by
  apply Stays.bind_requireOpen
  apply Stays.bind_lift
  intro key _
  apply Stays.bind_get
  intro s
  split
  · exact .pure
  · apply Stays.bind_lift
    intro definition _
    apply (newFunction_stays _).bind
    intro v
    have hupdate : Stays .unequated (updatePairing (·.declare key v)) :=
      fun t => Meets.modify (unequated_of_solver rfl) trivial
    apply hupdate.bind
    intro _
    exact Stays.bind (fun t => Meets.modify (unequated_of_solver rfl) trivial) fun _ => .pure

theorem dereferenceOne_unequated (v : VarId) : Stays .unequated (dereferenceOne v) := by
  have hkeep : ∀ made, Stays .unequated (do
      modify fun s => { s with pointees := s.pointees.insert v made }
      return made) := fun made =>
    Stays.bind (fun s => Meets.modify (unequated_of_solver rfl) trivial) fun _ => .pure
  apply Stays.bind_get
  intro s
  split
  · exact .pure
  · apply Stays.bind_get
    intro t
    split
    · exact (allocate_unequated _).map.bind hkeep
    · exact Stays.pure.bind hkeep

theorem literalVariable_unequated (e : ExprId) (value : String) :
    Stays .unequated (literalVariable u e value) := by
  apply Stays.bind_current
  intro o
  split
  · exact .pure
  · apply freshAtom_stays.bind
    intro a
    apply (addBound_stays a .ntArr).discard.bind
    intro _
    apply (allocate_unequated _).bind
    exact fun v => Stays.bind_current fun o => (setOpen_unequated _).bind fun _ => .pure

theorem unknownCallee_unequated (e : ExprId) : Stays .unequated (unknownCallee u e) := by
  apply Stays.bind_current
  intro o
  split
  · exact .pure
  · apply (allocate_unequated _).bind
    exact fun v => Stays.bind_current fun o => (setOpen_unequated _).bind fun _ => .pure

/-! ## Denoting -/

/-- What is recalled is recalled quietly if it keeps things parted and equates nothing. -/
theorem recalls_quiet {α : Type} {x : Op α} {P : α → Session → Prop}
    (h : Recalls .visits x s P) (hparts : Meets .parts x s fun _ _ => True)
    (hstays : Stays .unequated x) : Recalls .quiet x s P :=
  Meets.mono (h.inf (hparts.inf (hstays s))) fun _ _ _ ⟨⟨hp, hr⟩, _⟩ =>
    ⟨hp, fun w hw => hr w hw.1⟩

/-- Nothing is equated while things are denoted. -/
theorem admitsDenoting_quiet (u : TranslationUnit) : AdmitsDenoting .quiet u where
  visits _ h := h.1
  implicit func hs hfunc hnone := recalls_quiet
    ((admitsDenoting_visits u).implicit func hs hfunc hnone) (implicitPrototype_parts func hs)
    (implicitPrototype_stays func)
  pointee v hs hv := recalls_quiet ((admitsDenoting_visits u).pointee v hs hv)
    (dereferenceOne_parts hs) (dereferenceOne_unequated v)
  literal e value hs hx := recalls_quiet ((admitsDenoting_visits u).literal e value hs hx)
    (literalVariable_parts e value hs) (literalVariable_unequated e value)
  unknown call hs := recalls_quiet ((admitsDenoting_visits u).unknown call hs)
    (unknownCallee_parts call hs) (unknownCallee_unequated call)

/-! ## Sessions that can come about -/

/-- What is open changes, and nothing more is remembered of it. -/
theorem parts_of_opened {o : Option OpenUnit}
    (h : ∀ o', o = some o' → (o'.literals = .empty ∧ o'.unknownCallees = .empty) ∨
      ∃ o₀, s.opened = some o₀ ∧ o'.literals = o₀.literals ∧
        o'.unknownCallees = o₀.unknownCallees) :
    Frame.parts.rel s { s with opened := o } := by
  intro hs hp
  have hlit : ∀ o' e v, o = some o' → o'.literals.find? e = some v →
      ∃ o₀, s.opened = some o₀ ∧ o₀.literals.find? e = some v := by
    intro o' e v ho hv
    rcases h o' ho with ⟨hempty, -⟩ | ⟨o₀, ho₀, hsame, -⟩
    · rw [hempty] at hv
      cases hv
    · exact ⟨o₀, ho₀, hsame ▸ hv⟩
  have hunk : ∀ o' e v, o = some o' → o'.unknownCallees.find? e = some v →
      ∃ o₀, s.opened = some o₀ ∧ o₀.unknownCallees.find? e = some v := by
    intro o' e v ho hv
    rcases h o' ho with ⟨-, hempty⟩ | ⟨o₀, ho₀, -, hsame⟩
    · rw [hempty] at hv
      cases hv
    · exact ⟨o₀, ho₀, hsame ▸ hv⟩
  have hdemand : ∀ {v}, OnDemand { s with opened := o } v → s.OnDemand v := by
    intro v hv
    cases hv with
    | signature hk hv => exact .signature hk hv
    | literal ho he =>
      obtain ⟨o₀, ho₀, he⟩ := hlit _ _ v ho he
      exact .literal ho₀ he
    | unknown ho he =>
      obtain ⟨o₀, ho₀, he⟩ := hunk _ _ v ho he
      exact .unknown ho₀ he
  refine ⟨{ hs with literals := fun o' ho e he => ?_, unknownCallees := fun o' ho e he => ?_ },
    hp.stored, fun v w hv hw => hp.onDemand v w (hdemand hv) (hw.imp id hdemand),
    fun o' e v ho hv => ?_, hp.pointees⟩
  · rcases h o' ho with ⟨hempty, -⟩ | ⟨o₀, ho₀, hsame, -⟩
    · rw [hempty] at he
      cases he
    · exact hs.literals o₀ ho₀ e (hsame ▸ he)
  · rcases h o' ho with ⟨-, hempty⟩ | ⟨o₀, ho₀, -, hsame⟩
    · rw [hempty] at he
      cases he
    · exact hs.unknownCallees o₀ ho₀ e (hsame ▸ he)
  · obtain ⟨o₀, ho₀, hv⟩ := hunk o' e v ho hv
    exact hp.unowned o₀ e v ho₀ hv

theorem candidates_parts {o : OpenUnit} (ho : s.opened = some o)
    (found : List (DeclId × List ExprId)) :
    Frame.parts.rel s { s with opened := some { o with candidates := found } } :=
  parts_of_opened fun _ ho' => .inr ⟨o, ho, by cases ho'; exact ⟨rfl, rfl⟩⟩

theorem Records.parts (h : s.Records t) : Frame.parts.rel s t :=
  fun hs hp => ⟨h.creates.wellFormed hs, hp.creates hs h.creates⟩

theorem admitsFlowing_parts (u : TranslationUnit) : Frame.parts.AdmitsFlowing u where
  records := Records.parts
  candidates := candidates_parts
  denotes e view := .of_meets (fun hs hwf => absurd hwf hs) fun _ hs =>
    (denote_recalls_of (admitsDenoting_quiet u) e view hs).widen fun _ h => h.2.1
  denotesDecl d view := .of_meets (fun hs hwf => absurd hwf hs) fun _ hs =>
    (denoteDecl_recalls_of (admitsDenoting_quiet u) d view hs).widen fun _ h => h.2.1

/-- Whatever is requested, what was made on demand stays apart from the rest. -/
theorem Request.run_parts (r : Request) (hs : s.WellFormed) (hp : s.Parted) :
    Meets .parts r.run s fun _ _ => True := by
  have record {α : Type} {x : Op α} (h : Meets .records x s fun _ _ => True) :
      Meets .parts (discard x) s fun _ _ => True := Meets.discard h.to_creates.to_parts
  cases r with
  | enter u =>
    refine Meets.bind_get ?_
    split
    · exact Meets.fault
    · exact Meets.modify (parts_of_opened fun _ ho => .inl (by cases ho; exact ⟨rfl, rfl⟩)) trivial
  | exit =>
    refine Meets.bind_get ?_
    split
    · exact Meets.modify (parts_of_opened fun _ ho => nomatch ho) trivial
    · exact Meets.fault
  | giveVariables u d => exact Meets.discard (giveVariables_parts d hs hp)
  | noteFunction u func => exact noteFunction_parts func s
  | flagArray u d => exact flagArray_stays candidates_parts d s
  | addArraySize u d size => exact addArraySize_stays candidates_parts d size s
  | implicitPrototype u func => exact Meets.discard (implicitPrototype_parts func hs)
  | denoteDecl u d view => exact ((admitsFlowing_parts u).denotesDecl d view).discard s
  | denote u e view => exact ((admitsFlowing_parts u).denotes e view).discard s
  | flow u => exact (flow_stays (admitsFlowing_parts u)).discard s
  | freshAtom => exact Meets.discard (freshAtom_meets s).any.to_parts
  | addConstraint c => exact record (addConstraint_meets c s).any
  | boundBelow v c => exact record (boundBelow_meets v c s).any
  | boundSet set c => exact record (boundSet_meets set c s).any
  | equate a b => exact (equate_meets a b s).any.to_creates.to_parts
  | equateSets x y => exact (equateSets_meets x y s).any.to_creates.to_parts
  | link => exact record (link_meets s).any
  | repair sol => exact record (repair_repairs sol hs).any

/-- Whatever was asked for, what is remembered is parted. -/
theorem Reachable.parted {options : Options} (h : Reachable options s) : s.Parted := by
  induction h with
  | new => exact parted_new options
  | request r hs hends ih =>
    exact ((r.run_parts hs.wellFormed ih).rel_of_attempt hends hs.wellFormed ih).2

end Session

end CheckedPointers
