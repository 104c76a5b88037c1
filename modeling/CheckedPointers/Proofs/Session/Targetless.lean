import CheckedPointers.Proofs.Session.Calls
import CheckedPointers.Proofs.Session.Keeping
import CheckedPointers.Proofs.Session.Progress

/-!
Calls whose callee leads to no function. A named callee makes the call denote a signature of its
own, the same one as long as the unit is open; a computed callee makes it denote nothing. Neither
has an effect on what the value of the call flows into.
-/
namespace CheckedPointers

open Op

namespace Arena

variable {arena : Arena} {a v : VarId} {k n : Nat}

@[simp] theorem crossWith_empty (eqs : VarId → VarId → Option (List (Atom × Atom)))
    (set : VarSet) : crossWith eqs set .empty = some [] := by
  have hnone : (set.members.flatMap fun x => VarSet.empty.members.map (x, ·)) = [] :=
    List.flatMap_eq_nil_iff.2 fun _ _ => rfl
  simp [crossWith, hnone]

/-- The signature of an unknown target has nothing in common with any variable. -/
theorem WellFormed.equationsWithin_unknown (h : arena.WellFormed n)
    (hv : arena.function? v = some .unknown) (ha : a < arena.size) (hk : a < k) :
    arena.equationsWithin k a v = some [] := by
  induction k generalizing a with
  | zero => exact absurd hk (Nat.not_lt_zero a)
  | succ k ih =>
    by_cases hav : a = v
    · simp [equationsWithin, hav]
    cases hx : arena[a] with
    | pointer p =>
      have hp : arena.pointer? a = some p :=
        pointer?_of_getElem? (Array.getElem?_eq_some_iff.2 ⟨ha, hx⟩)
      cases hf : p.function with
      | none =>
        rw [equationsWithin_returned hav hp hv hf]
        exact crossWith_empty _ _
      | some f =>
        obtain ⟨hlt, hfun⟩ := h.attached hp hf
        rw [equationsWithin_pointed hav hp hv hf]
        exact ih (lt_of_isFunction hfun) (Nat.lt_of_lt_of_le hlt (Nat.le_of_lt_succ hk))
    | function f =>
      have hf : arena.function? a = some f :=
        function?_of_getElem? (Array.getElem?_eq_some_iff.2 ⟨ha, hx⟩)
      simp [equationsWithin, hav, getElem?_of_function? hf, getElem?_of_function? hv,
        FunctionVariable.unknown]

end Arena

namespace Op

variable {α β : Type} {x y z : Op α} {f g : α → Op β}

/-- Where the first operation ends, the second one ends alike. -/
def ExtendedBy (x y : Op α) : Prop := ∀ s a t, x.Ends s a t → y.Ends s a t

theorem ExtendedBy.refl : x.ExtendedBy x := fun _ _ _ h => h

theorem ExtendedBy.trans (h : x.ExtendedBy y) (h' : y.ExtendedBy z) : x.ExtendedBy z :=
  fun s a t hx => h' s a t (h s a t hx)

theorem ExtendedBy.unresolved {e : ShapeError} : (unresolved e).ExtendedBy x :=
  fun _ _ _ h => absurd h not_ends_unresolved

theorem ExtendedBy.bind (h : x.ExtendedBy y) (hf : ∀ a, (f a).ExtendedBy (g a)) :
    (x >>= f).ExtendedBy (y >>= g) := by
  intro s b t hends
  obtain ⟨a, w, hx, hfa⟩ := ends_bind.1 hends
  exact ends_bind.2 ⟨a, w, h s a w hx, hf a w b t hfa⟩

/-- The first operation runs as the second one does, unless expressions nest too deeply for it. -/
def CutShort (x y : Op α) : Prop :=
  ∀ s, x s = y s ∨ ∃ e t, x s = (.error (.unresolved (.tooDeep e)), t)

theorem CutShort.refl : x.CutShort x := fun _ => .inl rfl

theorem CutShort.trans (h : x.CutShort y) (h' : y.CutShort z) : x.CutShort z := by
  intro s
  rcases h s with hxy | hdeep
  · rcases h' s with hyz | ⟨e, t, hdeep⟩
    · exact .inl (hxy.trans hyz)
    · exact .inr ⟨e, t, hxy.trans hdeep⟩
  · exact .inr hdeep

/-- An operation cut short is followed by operations cut short at the same place. -/
theorem CutShort.bind (h : x.CutShort y) (hf : ∀ a, (f a).CutShort (g a)) :
    (x >>= f).CutShort (y >>= g) := by
  intro s
  rw [bind_run, bind_run]
  rcases h s with heq | ⟨e, t, hdeep⟩
  · rw [heq]
    rcases y s with ⟨_ | a, w⟩
    · exact .inl rfl
    · exact hf a w
  · rw [hdeep]
    exact .inr ⟨e, t, rfl⟩

theorem CutShort.extendedBy (h : x.CutShort y) : x.ExtendedBy y := by
  intro s a t hends
  rcases h s with heq | ⟨e, w, hdeep⟩
  · exact heq.symm.trans hends
  · exact absurd (hdeep.symm.trans hends) nofun

end Op

namespace Session

variable {options : Options} {u : TranslationUnit} {view : Viewpoint} {s t w : Session}
  {o : OpenUnit} {call callee : ExprId} {args : List ExprId} {target : DeclId} {d : Decl}
  {found targets set : VarSet} {v : VarId}

/-! ## What stands for an unknown target -/

def IsUnknown (s : Session) (v : VarId) : Prop := s.arena.function? v = some .unknown

theorem IsUnknown.extends (h : s.IsUnknown v) (hst : s.Extends t) : t.IsUnknown v :=
  hst.arena.function? h

def GuessesUnknown (s : Session) : Prop :=
  ∀ o, s.opened = some o → ∀ e ∈ o.unknownCallees.entries, s.IsUnknown e.2

/-- Only a look at a call without a target makes the open unit remember one more. -/
theorem LookStep.guessed {e : ExprId × VarId} (h : s.LookStep t) (ho : t.opened = some o)
    (he : e ∈ o.unknownCallees.entries) :
    (∃ o', s.opened = some o' ∧ e ∈ o'.unknownCallees.entries) ∨ t.IsUnknown e.2 := by
  cases h with
  | builds h => exact .inl ⟨o, by rw [← ho, h.only], he⟩
  | signs | derives | bottoms => exact .inl ⟨o, ho, he⟩
  | quotes ho' _ =>
    cases ho
    exact .inl ⟨_, ho', he⟩
  | guesses ho' _ =>
    cases ho
    rcases OrderedMap.mem_insert he with rfl | he
    · exact .inr (by simp [IsUnknown, withUnknownCallee, Arena.function?_push, Variable.function?])
    · exact .inl ⟨_, ho', he⟩

/-- A guess was there before the step, or it is an unknown callee made now. -/
theorem Step.guessed {e : ExprId × VarId} (h : s.Step t) (ho : t.opened = some o)
    (he : e ∈ o.unknownCallees.entries) :
    (∃ o', s.opened = some o' ∧ e ∈ o'.unknownCallees.entries) ∨ t.IsUnknown e.2 := by
  cases h with
  | visits h =>
    cases h with
    | looks h => exact h.guessed ho he
    | records h => exact .inl ⟨o, by rw [← ho, h.only], he⟩
    | collects ho' =>
      cases ho
      exact .inl ⟨_, ho', he⟩
  | enters id file =>
    cases ho
    cases he
  | exits => cases ho
  | stores | defines | declares | pairs | notesBody | notesVariants => exact .inl ⟨o, ho, he⟩

/-- All that is guessed for a call without a target is an unknown signature. -/
theorem Reachable.guessesUnknown (h : Reachable options s) : s.GuessesUnknown := by
  apply h.keeps (P := GuessesUnknown)
  · rintro o ⟨⟩
  · intro s t hs hst hall o ho e he
    rcases hst.step.guessed ho he with ⟨o', ho', he'⟩ | hnew
    · exact (hall o' ho' e he').extends (hst.step.extends hs)
    · exact hnew
  · exact fun _ hall => hall

/-! ## What the open unit keeps -/

/-- Until its visit is over the open unit stays, with all that it remembers. -/
theorem Request.remembers {b : Bool} {r : Request} (hr : r ≠ .exit) (hs : s.WellFormed)
    (h : (attempt r.run).Ends s b t) (ho : s.opened = some o) :
    ∃ o', t.opened = some o' ∧ o.Remembers o' := by
  have hsame : t.opened = s.opened → ∃ o', t.opened = some o' ∧ o.Remembers o' :=
    fun heq => ⟨o, heq.trans ho, .refl o⟩
  have hcreates : s.Creates t → t.opened = s.opened := fun hst => by rw [hst.only]
  cases r with
  | enter u =>
    have hfails : Session.enter u s = (.error (.fault (.unitStillOpen u.file o.file)), s) := by
      rw [Session.enter, bind_run, get_run]
      simp only [ho]
      rfl
    simp only [Ends, attempt_run, Request.run, hfails] at h
    cases h
  | exit => exact absurd rfl hr
  | giveVariables u id =>
    exact hsame (((giveVariables_stays sameUnit_admits id).discard.attempt s).of_ends h).1
  | noteFunction u func =>
    exact hsame (((noteFunction_stays sameUnit_admits func).attempt s).of_ends h).1
  | freshAtom =>
    have hrun : Meets .creates (discard Session.freshAtom) s fun _ _ => True :=
      (freshAtom_meets s).any.discard
    exact hsame (hcreates (hrun.rel_of_attempt h))
  | addConstraint c =>
    have hrun : Meets .creates (discard (Session.addConstraint c)) s fun _ _ => True :=
      (addConstraint_meets c s).any.to_creates.discard
    exact hsame (hcreates (hrun.rel_of_attempt h))
  | _ => exact (visits_of_visiting ((Request.run_visiting rfl).attempt.of_ends h) hs).opened o ho

/-- As long as the unit is not left, what was made for it is remembered. -/
theorem requests_remember {rs : List Request} (hrs : Request.exit ∉ rs) (hs : Reachable options s)
    (h : (requests rs).Ends s ⟨⟩ t) (ho : s.opened = some o) :
    ∃ o', t.opened = some o' ∧ o.Remembers o' := by
  refine relates_of_requests (P := fun s t => ∀ o, s.opened = some o →
    ∃ o', t.opened = some o' ∧ o.Remembers o') (fun _ o ho => ⟨o, ho, .refl o⟩)
    (fun _ _ _ _ hst htw o ho => ?_) (fun r hr _ _ _ hs hends _ ho => ?_) hs h o ho
  · obtain ⟨o₁, ho₁, h₁⟩ := hst o ho
    obtain ⟨o₂, ho₂, h₂⟩ := htw o₁ ho₁
    exact ⟨o₂, ho₂, h₁.trans h₂⟩
  · exact Request.remembers (fun hexit => hrs (hexit ▸ hr)) hs.wellFormed hends ho

/-! ## The values of such calls -/

def LeadNowhere (s : Session) (set : VarSet) : Prop :=
  ∀ v ∈ set, s.arena.reachableFunction? v = none

theorem LeadNowhere.empty (s : Session) : s.LeadNowhere .empty :=
  fun v hv => absurd hv (VarSet.not_mem_empty v)

theorem LeadNowhere.filterMap_eq (h : s.LeadNowhere set) :
    set.members.filterMap s.arena.reachableFunction? = [] :=
  List.filterMap_eq_nil_iff.2 h

/-- What a call was given once is found again. -/
theorem unknownCallee_found (ho : IsOpen u o s) (hv : o.unknownCallees.find? call = some v) :
    (unknownCallee u call).Ends s v s := by
  refine ends_bind.2 ⟨o, s, ends_current ho, ?_⟩
  simp only [hv]
  exact ends_pure.2 ⟨rfl, rfl⟩

/-- A call has a signature of its own, or is given one. -/
theorem exists_unknownCallee (call : ExprId) (ho : IsOpen u o s) (hs : s.GuessesUnknown) :
    ∃ v t o', (unknownCallee u call).Ends s v t ∧ t.IsUnknown v ∧ IsOpen u o' t ∧
      o'.unknownCallees.find? call = some v := by
  cases hv : o.unknownCallees.find? call with
  | some v =>
    exact ⟨v, s, o, unknownCallee_found ho hv, hs o ho.1 _ (OrderedMap.mem_of_find? hv), ho, hv⟩
  | none =>
    refine ⟨s.arena.size, _, _, unknownCallee_ends ho hv, ?_, ⟨rfl, ho.2⟩, ?_⟩
    · simp [IsUnknown, withUnknownCallee, Arena.function?_push, Variable.function?]
    · simp [OrderedMap.find?_insert]

/-- A named callee that leads to no function makes its call denote the signature of the call. -/
theorem denote_named_ends (ho : IsOpen u o s) (hx : u.expr call = .ok (.call callee args))
    (htarget : u.namedCallee call = .ok (some target)) (hd : u.decl target = .ok d)
    (hdeclarator : d.isDeclarator) (hfound : (denoteDecl u target .declaration).Ends s found t)
    (hnowhere : t.LeadNowhere found) (hv : (unknownCallee u call).Ends t v w) :
    (denote u call view).Ends s (.singleton v) w := by
  refine ends_bind.2 ⟨⟨⟩, s, ends_bind.2 ⟨o, s, ends_current ho, ends_pure.2 ⟨rfl, rfl⟩⟩, ?_⟩
  rw [denoteWithin, hx, lift_ok_bind]
  dsimp only
  rw [htarget, lift_ok_bind]
  dsimp only
  rw [denoteCall, hd, lift_ok_bind]
  simp only [hdeclarator, Bool.not_true, Bool.false_eq_true, if_false]
  refine ends_bind.2 ⟨found, t, hfound, ends_bind.2 ⟨t, t, ends_get.2 ⟨rfl, rfl⟩, ?_⟩⟩
  rw [hnowhere.filterMap_eq]
  exact ends_bind.2 ⟨v, w, hv, ends_pure.2 ⟨rfl, rfl⟩⟩

theorem LeadNowhere.returnsOf_eq (h : s.LeadNowhere set) : returnsOf s.arena set = .empty := by
  rw [returnsOf, h.filterMap_eq]
  rfl

/-! ## What they flow into -/

/-- Whatever is equated with signatures of unknown targets stays as it is. -/
theorem equateSets_unknown (hs : s.WellFormed) (htargets : Holds targets s)
    (hset : ∀ v ∈ set, s.IsUnknown v) : (equateSets targets set).Ends s ⟨⟩ s := by
  refine forM_ends fun a ha => forM_ends fun v hv => ?_
  have heqs : s.arena.equations? a v = some [] :=
    hs.arena.equationsWithin_unknown (hset v hv) (htargets a ha)
      (Nat.lt_succ_of_le (Nat.le_add_right a v))
  refine ends_bind.2 ⟨s, s, ends_get.2 ⟨rfl, rfl⟩, ?_⟩
  rw [heqs]
  exact ends_bind.2 ⟨[], s, ends_known.2 ⟨rfl, rfl⟩, ends_pure.2 ⟨rfl, rfl⟩⟩

/-! ## Parentheses -/

/-- A look runs as one at more nested expressions does, unless they nest too deeply for it. -/
theorem denoteWithin_cutShort (n : Nat) (e : ExprId) (view : Viewpoint) :
    (denoteWithin u n e view).CutShort (denoteWithin u (n + 1) e view) := by
  induction n generalizing e view with
  | zero => exact fun _ => .inr ⟨e, _, rfl⟩
  | succ n ih =>
    rw [denoteWithin, denoteWithin]
    apply CutShort.bind .refl
    intro x
    cases x with
    | paren inner | implicitCast inner | bindTemporary inner => exact ih inner view
    | binary _ lhs rhs => exact (ih lhs view).bind fun _ => (ih rhs view).bind fun _ => .refl
    | subscript base _ => exact (ih base view).bind fun _ => .refl
    | unary op operand =>
      cases op with
      | deref => exact (ih operand view).bind fun _ => .refl
      | addrOf | neg | not => exact ih operand view
    | call callee args =>
      apply CutShort.bind .refl
      intro target
      cases target with
      | some target => exact .refl
      | none => exact (ih callee .declaration).bind fun _ => .refl
    | conditional cond whenTrue whenFalse =>
      exact (ih cond view).bind fun _ => (ih whenTrue view).bind fun _ =>
        (ih whenFalse view).bind fun _ => .refl
    | declRef _ | member _ _ | stringLiteral _ | intLiteral _ | cast _ _ | sizeOf _ => exact .refl

/-- Where a look ends, a look at more nested expressions ends alike. -/
theorem denoteWithin_deeper (n : Nat) (e : ExprId) (view : Viewpoint) :
    (denoteWithin u n e view).ExtendedBy (denoteWithin u (n + 1) e view) :=
  (denoteWithin_cutShort n e view).extendedBy

/-- What parentheses and implicit conversions wrap denotes what they denote. -/
theorem denoteWithin_unwrap {m n : Nat} {value core : ExprId}
    (hcore : u.unwrapWithin Expr.unparen? m value = .ok core) :
    (denoteWithin u n value view).ExtendedBy (denoteWithin u n core view) := by
  induction m generalizing value n with
  | zero => cases hcore
  | succ m ih =>
    rw [TranslationUnit.unwrapWithin] at hcore
    obtain ⟨x, hx, hcore⟩ := TranslationUnit.bind_eq_ok.1 hcore
    split at hcore
    · next inner hinner =>
      cases n with
      | zero => exact .unresolved
      | succ n =>
        have hbelow : (denoteWithin u (n + 1) value view) = denoteWithin u n inner view := by
          rw [denoteWithin, hx, lift_ok_bind]
          cases x with
          | paren _ | implicitCast _ => rw [← Option.some.inj hinner]
          | _ => cases hinner
        rw [hbelow]
        exact (ih hcore).trans (denoteWithin_deeper n core view)
    · cases hcore
      exact .refl

theorem denote_unparen {value core : ExprId} (hcore : u.unparen value = .ok core) :
    (denote u value view).ExtendedBy (denote u core view) :=
  ExtendedBy.bind .refl fun _ => denoteWithin_unwrap hcore

/-! ## Calls without a target -/

/-- Whatever the value flows into, no more is left behind than by a look at the value. -/
def FlowsIdly (u : TranslationUnit) (value : ExprId) (s : Session) : Prop :=
  ∀ view set t targets, (denote u value view).Ends s set t → Holds targets s →
    ((flowInto u view targets none value) s).2 = s ∨
      ((flowInto u view targets none value) s).2 = t

/-- A call of an unknown target gives its targets nothing, since what it denotes owns nothing. -/
theorem flowsIdly_of_unknown {value : ExprId} (hs : s.WellFormed)
    (hcore : u.unparen value = .ok call) (hx : u.expr call = .ok (.call callee args))
    (hcall : ∀ view, (denote u call view).Ends s set t) (hset : ∀ v ∈ set, t.IsUnknown v) :
    FlowsIdly u value s := by
  intro view set' t' targets hvalue htargets
  obtain ⟨rfl, rfl⟩ := (denote_unparen hcore _ _ _ hvalue).unique (hcall view)
  have hst : s.Visits t' := ((denote_recalls u value view hs).of_ends hvalue).1
  have hequate : equateSets targets set' t' = (.ok ⟨⟩, t') :=
    equateSets_unknown (hst.wellFormed hs) (htargets.extends hst.toExtends) hset
  have hvalue : denote u value view s = (.ok set', t') := hvalue
  have hflow : flowInto u view targets none value = (do
      if ← u.isAllowedCall (← get).options call then return ()
      equateSets targets (← denote u value view)) := by
    rw [flowInto]
    dsimp only
    rw [hcore, lift_ok_bind, hx, lift_ok_bind]
  rw [hflow, bind_run, get_run]
  dsimp only
  rw [bind_run, lift_run]
  cases hallowed : u.isAllowedCall s.options call with
  | error e => exact .inl rfl
  | ok allowed =>
    cases allowed with
    | true => exact .inl rfl
    | false =>
      right
      simp only [Bool.false_eq_true, if_false, bind_run, hvalue, hequate]

/-- A call whose callee leads to no function. If the callee names a declarator, the call denotes one
signature without returns and parameters, and the same one whenever it is asked for again before
the visit of the unit is over. If the callee is computed, the call denotes nothing. In either case
nothing is recorded for what the value of the call flows into. -/
theorem Reachable.denote_targetless (hs : Reachable options s) (ho : IsOpen u o s)
    (hx : u.expr call = .ok (.call callee args)) :
    (∀ target d found t, u.namedCallee call = .ok (some target) → u.decl target = .ok d →
      d.isDeclarator → (denoteDecl u target .declaration).Ends s found t → t.LeadNowhere found →
        ∃ v w, (∀ view, (denote u call view).Ends s (.singleton v) w) ∧ w.IsUnknown v ∧
          (∀ rs z found' z', Request.exit ∉ rs → (Session.requests rs).Ends w ⟨⟩ z →
            (denoteDecl u target .declaration).Ends z found' z' → z'.LeadNowhere found' →
              ∀ view, (denote u call view).Ends z (.singleton v) z') ∧
          ∀ value, u.unparen value = .ok call → FlowsIdly u value s) ∧
    (∀ callees t, u.namedCallee call = .ok none →
      (denoteWithin u expressionLimit callee .declaration).Ends s callees t →
        t.LeadNowhere callees →
          (∀ view, (denote u call view).Ends s .empty t) ∧
            ∀ value, u.unparen value = .ok call → FlowsIdly u value s) := by
  constructor
  · intro target d found t htarget hd hdeclarator hfound hnowhere
    have hst : s.Visits t :=
      ((denoteDecl_recalls u target .declaration hs.wellFormed).of_ends hfound).1
    obtain ⟨o₁, ho₁, -⟩ := ho.visits hst
    have ht : Reachable options t :=
      hs.ended (r := .denoteDecl u target .declaration) (ends_discard.2 ⟨found, hfound⟩)
    obtain ⟨v, w, o₂, hv, hunknown, ho₂, hmade⟩ :=
      exists_unknownCallee call ho₁ ht.guessesUnknown
    have hcall : ∀ view, (denote u call view).Ends s (.singleton v) w := fun view =>
      denote_named_ends ho hx htarget hd hdeclarator hfound hnowhere hv
    have hw : Reachable options w :=
      hs.ended (r := .denote u call .body) (ends_discard.2 ⟨_, hcall .body⟩)
    refine ⟨v, w, hcall, hunknown, ?_, fun value hcore => ?_⟩
    · intro rs z found' z' hrs hends hfound' hnowhere' view
      obtain ⟨o₃, ho₃, hr₃⟩ := requests_remember hrs hw hends ho₂.1
      have hz : IsOpen u o₃ z := ⟨ho₃, hr₃.id.trans ho₂.2.1, hr₃.file.trans ho₂.2.2⟩
      have hzz' : z.Visits z' := ((denoteDecl_recalls u target .declaration
        (hw.requests hends).wellFormed).of_ends hfound').1
      obtain ⟨o₄, ho₄, hr₄⟩ := hz.visits hzz'
      have hagain := hr₄.unknownCallees call v (hr₃.unknownCallees call v hmade)
      exact denote_named_ends hz hx htarget hd hdeclarator hfound' hnowhere'
        (unknownCallee_found ho₄ hagain)
    · apply flowsIdly_of_unknown hs.wellFormed hcore hx hcall
      intro v' hv'
      rwa [(VarSet.mem_singleton v v').1 hv']
  · intro callees t htarget hcallees hnowhere
    have hcall : ∀ view, (denote u call view).Ends s .empty t := fun view =>
      hnowhere.returnsOf_eq ▸ denote_call_ends ho hx htarget hcallees
    refine ⟨hcall, fun value hcore => flowsIdly_of_unknown hs.wellFormed hcore hx hcall ?_⟩
    exact fun v hv => absurd hv (VarSet.not_mem_empty v)

/-- One pointer is assigned from a call of a function that was never indexed, and another one from
a call through a dereferenced pointer to a function. -/
def strayUnit : TranslationUnit :=
  let ptr : CType := .pointer .int
  { id := 0
    file := "a.c"
    decls := #[
      ⟨"p", ⟨"a.c", 1, 6⟩, false, .var ptr true none none⟩,
      ⟨"g", ⟨"a.c", 2, 6⟩, false, .function ⟨ptr, [], false, true⟩ [] true none⟩,
      ⟨"q", ⟨"a.c", 3, 6⟩, false, .var ptr true none none⟩,
      ⟨"fp", ⟨"a.c", 4, 8⟩, false, .var (.pointer (.function ptr [] false true)) true none none⟩,
      ⟨"h", ⟨"a.c", 5, 6⟩, false, .function ⟨.builtin "void", [], false, true⟩ [] true
        (some [.expr 3, .expr 8])⟩]
    exprs := #[.declRef 0, .declRef 1, .call 1 [], .binary .assign 0 2, .declRef 2, .declRef 3,
      .unary .deref 5, .call 6 [], .binary .assign 4 7]
    topLevel := [0, 2, 3, 4] }

def strayIndexed : List Request :=
  .enter strayUnit :: [0, 2, 3, 4].map (.giveVariables strayUnit) ++ [.exit, .enter strayUnit]

def strayFollowed : Op PUnit := do
  requests strayIndexed
  discard (denote strayUnit 2 .body)
  discard (flow strayUnit)

/-- Both callees lead nowhere, the named one also when the unit has been followed, and then both
pointers are as safe as can be. -/
theorem strayUnit_runs :
    ∃ s o t t' set w summary z z', Reachable .default s ∧ IsOpen strayUnit o s ∧
      (denoteDecl strayUnit 1 .declaration).Ends s .empty t ∧
      (denoteWithin strayUnit expressionLimit 6 .declaration).Ends s .empty t' ∧
      (denote strayUnit 2 .body).Ends s set w ∧ (flow strayUnit).Ends w summary z ∧
      (denoteDecl strayUnit 1 .declaration).Ends z .empty z' ∧
      z.storedAt ⟨"a.c", 1, 6⟩ = .singleton 0 ∧ z.storedAt ⟨"a.c", 3, 6⟩ = .singleton 1 ∧
      z.arena.levels 0 = [0] ∧ z.arena.levels 1 = [1] ∧
      z.solver.solve.category 0 = .ptr ∧ z.solver.solve.category 1 = .ptr := by
  obtain ⟨_, z, hfollowed, hlook⟩ := exists_ends (x := strayFollowed) (s := .new .default)
    (g := fun _ z => (denoteDecl strayUnit 1 .declaration z).1.toOption = some .empty &&
      z.storedAt ⟨"a.c", 1, 6⟩ = .singleton 0 && z.storedAt ⟨"a.c", 3, 6⟩ = .singleton 1 &&
      z.arena.levels 0 = [0] && z.arena.levels 1 = [1] &&
      z.solver.solve.category 0 = .ptr && z.solver.solve.category 1 = .ptr)
    (b := true) (by decide +kernel)
  simp only [Bool.and_eq_true, decide_eq_true_eq] at hlook
  obtain ⟨⟨⟨⟨⟨⟨hagain, hpstored⟩, hqstored⟩, hp⟩, hq⟩, hpsolved⟩, hqsolved⟩ := hlook
  obtain ⟨_, s, hrequests, hfollowed⟩ := ends_bind.1 hfollowed
  obtain ⟨_, w, hcall, hflow⟩ := ends_bind.1 hfollowed
  obtain ⟨set, hcall⟩ := ends_discard.1 hcall
  obtain ⟨summary, hflow⟩ := ends_discard.1 hflow
  obtain ⟨_, s', hrequests', hlook⟩ := exists_ends (x := requests strayIndexed)
    (s := .new .default)
    (g := fun _ s => (s.opened.map fun o => (o.id, o.file)) = some (0, "a.c") &&
      (denoteDecl strayUnit 1 .declaration s).1.toOption = some .empty &&
      (denoteWithin strayUnit expressionLimit 6 .declaration s).1.toOption = some .empty)
    (b := true) (by decide +kernel)
  obtain rfl := (hrequests.unique hrequests').2
  simp only [Bool.and_eq_true, decide_eq_true_eq] at hlook
  obtain ⟨⟨hopened, hfound⟩, hcallees⟩ := hlook
  obtain ⟨o, ho, hid⟩ := Option.map_eq_some_iff.1 hopened
  obtain ⟨t, hfound⟩ := exists_ends_of_run hfound
  obtain ⟨t', hcallees⟩ := exists_ends_of_run hcallees
  obtain ⟨z', hagain⟩ := exists_ends_of_run hagain
  exact ⟨s, o, t, t', set, w, summary, z, z', Reachable.new.requests hrequests,
    ⟨ho, Prod.mk.inj hid⟩, hfound, hcallees, hcall, hflow, hagain, hpstored, hqstored, hp, hq,
    hpsolved, hqsolved⟩

/-- The first call denotes one signature, the same before and after the unit is followed, and the
second one denotes nothing. -/
theorem Reachable.denote_targetless_strayUnit :
    ∃ s o v w summary z z' t', Reachable .default s ∧ IsOpen strayUnit o s ∧
      (denote strayUnit 2 .body).Ends s (.singleton v) w ∧ w.IsUnknown v ∧
      (flow strayUnit).Ends w summary z ∧ (denote strayUnit 2 .body).Ends z (.singleton v) z' ∧
      FlowsIdly strayUnit 2 s ∧
      (denote strayUnit 7 .body).Ends s .empty t' ∧ FlowsIdly strayUnit 7 s := by
  obtain ⟨s, o, t, t', set, w, summary, z, z', hs, ho, hfound, hcallees, hcall, hflow, hagain, -⟩ :=
    strayUnit_runs
  have hx : strayUnit.expr 2 = .ok (.call 1 []) := rfl
  have hx' : strayUnit.expr 7 = .ok (.call 6 []) := rfl
  obtain ⟨v, w', hcall', hunknown, hrepeats, hidle⟩ :=
    (hs.denote_targetless ho hx).1 1 _ .empty t rfl rfl rfl hfound (.empty t)
  obtain ⟨rfl, rfl⟩ := hcall.unique (hcall' .body)
  obtain ⟨hnothing, hidle'⟩ :=
    (hs.denote_targetless ho hx').2 .empty t' rfl hcallees (.empty t')
  have hfollowed : (Session.requests [.flow strayUnit]).Ends w ⟨⟩ z :=
    ends_bind.2 ⟨⟨⟩, z, ends_discard.2 ⟨true, ends_attempt.2
      (.inl ⟨rfl, ends_discard.2 ⟨summary, hflow⟩⟩)⟩, ends_pure.2 ⟨rfl, rfl⟩⟩
  exact ⟨s, o, v, w, summary, z, z', t', hs, ho, hcall, hunknown, hflow,
    hrepeats [.flow strayUnit] z .empty z' (by simp) hfollowed hagain (.empty z') .body,
    hidle 2 rfl, hnothing .body, hidle' 7 rfl⟩

/-- The call through the dereferenced pointer denotes nothing at all, and the two pointers that are
assigned from the calls are not wild when the unit has been followed. -/
theorem flow_drops_targetless :
    ∃ s o t t' w summary z, Reachable .default s ∧ IsOpen strayUnit o s ∧
      strayUnit.namedCallee 2 = .ok (some 1) ∧
      (denoteDecl strayUnit 1 .declaration).Ends s .empty t ∧
      strayUnit.namedCallee 7 = .ok none ∧
      (denoteWithin strayUnit expressionLimit 6 .declaration).Ends s .empty t' ∧
      (denote strayUnit 7 .body).Ends s .empty t' ∧
      Reachable .default w ∧ (flow strayUnit).Ends w summary z ∧
      strayUnit.expr 3 = .ok (.binary .assign 0 2) ∧
      strayUnit.expr 8 = .ok (.binary .assign 4 7) ∧
      z.storedAt ⟨"a.c", 1, 6⟩ = .singleton 0 ∧ z.arena.levels 0 = [0] ∧
      z.solver.solve.category 0 ≠ .wild ∧
      z.storedAt ⟨"a.c", 3, 6⟩ = .singleton 1 ∧ z.arena.levels 1 = [1] ∧
      z.solver.solve.category 1 ≠ .wild := by
  obtain ⟨s, o, t, t', set, w, summary, z, z', hs, ho, hfound, hcallees, hcall, hflow, -, hpstored,
    hqstored, hp, hq, hpsolved, hqsolved⟩ := strayUnit_runs
  have hw : Reachable .default w :=
    hs.ended (r := .denote strayUnit 2 .body) (ends_discard.2 ⟨set, hcall⟩)
  have hx : strayUnit.expr 7 = .ok (.call 6 []) := rfl
  refine ⟨s, o, t, t', w, summary, z, hs, ho, rfl, hfound, rfl, hcallees,
    denote_call_ends ho hx rfl hcallees, hw, hflow, rfl, rfl, hpstored, hp, ?_,
    hqstored, hq, ?_⟩
  · rw [hpsolved]
    decide
  · rw [hqsolved]
    decide

end Session

end CheckedPointers
