import CheckedPointers.Proofs.Session.Calls
import CheckedPointers.Proofs.Session.Equations

/-!
What following a unit equates. The atoms of every equation that a visit records belong to what was
looked up for something that is equated: a target, a value that is no call of an allowed external
function, an argument or the callee of any other call, what an initializer is for and what a function
returns. What such an expression denotes is looked up under the declarations that it draws on.
-/
namespace CheckedPointers

open Op

/-- Something that a session is asked for: what a declaration denotes, or what is stored for it. -/
inductive Lookup where
  | denoted (view : Viewpoint) (d : DeclId)
  | stored (d : DeclId)

def Lookup.run (u : TranslationUnit) : Lookup → Op VarSet
  | denoted view d => Session.denoteDecl u d view
  | stored d => Session.storedFor u d

theorem Lookup.recalls (u : TranslationUnit) (l : Lookup) {s : Session} (hs : s.WellFormed) :
    Recalls .visits (l.run u) s Session.Holds := by
  cases l with
  | denoted view d => exact Session.denoteDecl_recalls u d view hs
  | stored d => exact Session.storedFor_recalls u d hs

def Expr.denotedOperands : Expr → List ExprId
  | paren inner | implicitCast inner | bindTemporary inner | unary _ inner | subscript inner _ =>
    [inner]
  | binary _ lhs rhs => [lhs, rhs]
  | conditional cond whenTrue whenFalse => [cond, whenTrue, whenFalse]
  | declRef _ | member _ _ | call _ _ | stringLiteral _ | intLiteral _ | cast _ _ | sizeOf _ => []

namespace TranslationUnit

/-- What an expression denotes is looked up under a declaration. A named callee is looked at from
the declaration, and so is all of a computed one. -/
inductive Draws (u : TranslationUnit) : Viewpoint → ExprId → Viewpoint → DeclId → Prop where
  | name {view : Viewpoint} {e : ExprId} {x : Expr} {d : DeclId} (hx : u.expr e = .ok x)
      (hd : x.target? = some d) : Draws u view e view d
  | operand {view view' : Viewpoint} {e o : ExprId} {x : Expr} {d : DeclId} (hx : u.expr e = .ok x)
      (ho : o ∈ x.denotedOperands) (h : Draws u view o view' d) : Draws u view e view' d
  | called {view : Viewpoint} {e callee : ExprId} {args : List ExprId} {d : DeclId}
      (hx : u.expr e = .ok (.call callee args)) (hd : u.namedCallee e = .ok (some d)) :
      Draws u view e .declaration d
  | computed {view view' : Viewpoint} {e callee : ExprId} {args : List ExprId} {d : DeclId}
      (hx : u.expr e = .ok (.call callee args)) (hnone : u.namedCallee e = .ok none)
      (h : Draws u .declaration callee view' d) : Draws u view e view' d

/-- What of a value is equated with its targets: of an explicit conversion the operand, otherwise
the whole, and nothing of a call of an allowed external function. -/
inductive Carries (u : TranslationUnit) (options : Options) (value : ExprId) : ExprId → Prop where
  | converted {core operand : ExprId} {ty : CType} (hcore : u.unparen value = .ok core)
      (hx : u.expr core = .ok (.cast ty operand))
      (hcall : u.isAllowedCall options operand = .ok false) : Carries u options value operand
  | plain {core : ExprId} {x : Expr} (hcore : u.unparen value = .ok core)
      (hx : u.expr core = .ok x) (hplain : ∀ ty operand, x ≠ .cast ty operand)
      (hcall : u.isAllowedCall options core = .ok false) : Carries u options value value

end TranslationUnit

namespace FlowStep

def value? : FlowStep → Option ExprId
  | expr _ => none
  | ret _ value => some value
  | init _ _ value => some value

inductive Equates (u : TranslationUnit) (options : Options) (step : FlowStep) : ExprId → Prop where
  | delivered {value e : ExprId} (hvalue : step.value? = some value)
      (h : u.Carries options value e) : Equates u options step e
  | target {node lhs rhs : ExprId} (hnode : u.Inside node step.root)
      (hx : u.expr node = .ok (.binary .assign lhs rhs)) : Equates u options step lhs
  | assigned {node lhs rhs e : ExprId} (hnode : u.Inside node step.root)
      (hx : u.expr node = .ok (.binary .assign lhs rhs)) (h : u.Carries options rhs e) :
      Equates u options step e
  | argument {node callee arg : ExprId} {args : List ExprId} (hnode : u.Inside node step.root)
      (hx : u.expr node = .ok (.call callee args))
      (hcall : u.isAllowedCall options node = .ok false) (harg : arg ∈ args) :
      Equates u options step arg
  | computed {node callee : ExprId} {args : List ExprId} (hnode : u.Inside node step.root)
      (hx : u.expr node = .ok (.call callee args))
      (hcall : u.isAllowedCall options node = .ok false)
      (hnone : u.namedCallee node = .ok none) : Equates u options step callee

/-- What a lookup finds is equated with something in an attempt, or what it returns is. -/
inductive LooksUp (u : TranslationUnit) (options : Options) (step : FlowStep) : Lookup → Prop where
  | drawn {e : ExprId} {view : Viewpoint} {d : DeclId} (he : step.Equates u options e)
      (hd : u.Draws step.view e view d) : LooksUp u options step (.denoted view d)
  | called {node callee : ExprId} {args : List ExprId} {target : DeclId}
      (hnode : u.Inside node step.root) (hx : u.expr node = .ok (.call callee args))
      (hcall : u.isAllowedCall options node = .ok false)
      (hnamed : u.namedCallee node = .ok (some target)) :
      LooksUp u options step (.denoted .declaration target)
  | initialized {view : Viewpoint} {var : DeclId} {value : ExprId}
      (hstep : step = .init view var value) : LooksUp u options step (.denoted view var)
  | returned {func : DeclId} {value : ExprId} (hstep : step = .ret func value) :
      LooksUp u options step (.stored func)

end FlowStep

namespace Session

variable {options : Options} {u : TranslationUnit} {D : Lookup → Prop} {view : Viewpoint}
  {s t w : Session} {a b : Atom} {x y set : VarSet} {e : ExprId}

/-! ## Where atoms come from -/

/-- An atom belongs to something that one of some lookups finds, or to a string literal. -/
inductive Sourced (u : TranslationUnit) (D : Lookup → Prop) (s : Session) (a : Atom) : Prop where
  | found {l : Lookup} {set : VarSet} {v : VarId} (hl : D l) (hset : (l.run u).Ends s set s)
      (hv : v ∈ set) (ha : s.arena.Owns v a) : Sourced u D s a
  | literal {o : OpenUnit} {e : ExprId} {v : VarId} (ho : s.opened = some o)
      (hv : o.literals.find? e = some v) (ha : s.arena.Owns v a) : Sourced u D s a

/-- Sources stay sources during a visit, since lookups find the same and more. -/
theorem Sourced.visits (h : Sourced u D s a) (hs : s.WellFormed) (hst : s.Visits t) :
    Sourced u D t a := by
  have howns : ∀ {v}, s.arena.Owns v a → t.arena.Owns v a := fun hv =>
    (hs.arena.owns_iff hst.arena (Arena.lt_of_owns hv)).2 hv
  cases h with
  | @found l set v hl hset hv ha =>
    obtain ⟨-, -, hreplays⟩ := (l.recalls u hs).of_ends hset
    exact .found hl (hreplays t hst) hv (howns ha)
  | literal ho hv ha =>
    obtain ⟨o', ho', hr⟩ := hst.opened _ ho
    exact .literal ho' (hr.literals _ _ hv) (howns ha)

def Supplied (u : TranslationUnit) (D : Lookup → Prop) (set : VarSet) (s : Session) : Prop :=
  Holds set s ∧ ∀ v ∈ set, ∀ a, s.arena.Owns v a → Sourced u D s a

theorem Supplied.visits (h : Supplied u D set s) (hs : s.WellFormed) (hst : s.Visits t) :
    Supplied u D set t := by
  refine ⟨h.1.extends hst.toExtends, fun v hv a ha => ?_⟩
  exact (h.2 v hv a ((hs.arena.owns_iff hst.arena (h.1 v hv)).1 ha)).visits hs hst

theorem Supplied.empty (s : Session) : Supplied u D .empty s :=
  ⟨.empty s, fun v hv => absurd hv (VarSet.not_mem_empty v)⟩

theorem Supplied.union (hx : Supplied u D x s) (hy : Supplied u D y s) :
    Supplied u D (x.union y) s := by
  refine ⟨hx.1.union hy.1, fun v hv => ?_⟩
  rcases (VarSet.mem_union x y v).1 hv with hv | hv
  · exact hy.2 v hv
  · exact hx.2 v hv

/-- What supplied functions have in their slots is supplied. -/
theorem Supplied.slot {f : FunctionVariable} {slot : VarSet} (h : Supplied u D set s)
    (hs : s.WellFormed) (hf : f ∈ set.members.filterMap s.arena.reachableFunction?)
    (hslot : slot ∈ f.slots) : Supplied u D slot s := by
  obtain ⟨v, hv, hf⟩ := List.mem_filterMap.1 hf
  obtain ⟨w, hw⟩ := Arena.function?_of_reachableFunction? hf
  refine ⟨fun p hp => Arena.lt_of_isPointer ((hs.arena.slots hw hslot).isPointer hp),
    fun p hp a ha => h.2 v hv a ?_⟩
  exact hs.arena.owns_of_reachableFunction? hf hslot hp ha

/-- What is returned by sourced functions has the same source. -/
theorem Supplied.returns (h : Supplied u D set s) (hs : s.WellFormed) :
    Supplied u D (returnsOf s.arena set) s := by
  have hreturn : ∀ v ∈ returnsOf s.arena set, ∃ f : FunctionVariable,
      Supplied u D f.returns s ∧ v ∈ f.returns := by
    intro v hv
    rw [returnsOf, VarSet.mem_ofList, List.mem_flatMap] at hv
    obtain ⟨f, hf, hv⟩ := hv
    exact ⟨f, h.slot hs hf List.mem_cons_self, hv⟩
  constructor
  · intro v hv
    obtain ⟨f, hf, hv⟩ := hreturn v hv
    exact hf.1 v hv
  · intro v hv
    obtain ⟨f, hf, hv⟩ := hreturn v hv
    exact hf.2 v hv

/-! ## Denoting -/

/-- All that an expression draws on is among some lookups. -/
def Covers (u : TranslationUnit) (D : Lookup → Prop) (view : Viewpoint) (e : ExprId) : Prop :=
  ∀ view' d, u.Draws view e view' d → D (.denoted view' d)

theorem Covers.operand {o : ExprId} {y : Expr} (h : Covers u D view e) (hy : u.expr e = .ok y)
    (ho : o ∈ y.denotedOperands) : Covers u D view o :=
  fun view' d hd => h view' d (.operand hy ho hd)

theorem denoteDecl_supplied {d : DeclId} (hd : D (.denoted view d)) (hs : s.WellFormed) :
    Meets .quiet (denoteDecl u d view) s fun set t => Supplied u D set t :=
  Meets.mono (denoteDecl_recalls_of (admitsDenoting_quiet u) d view hs)
    fun _ t _ ⟨hholds, hreplays⟩ =>
      ⟨hholds, fun _ hv _ ha => .found hd (hreplays t (Frame.quiet.refl t)) hv ha⟩

/-- One dereference down, atoms have the source that they had. -/
theorem dereference_supplied (h : Supplied u D set s) (hs : s.WellFormed) (hp : s.Parted) :
    Meets .quiet (dereference set) s fun below t => Supplied u D below t := by
  refine Meets.mono (((dereferenceAll_recalls (admitsDenoting_quiet u) hs h.1).both
    (dereferenceAll_found set.members hs)).frame)
    fun below t _ ⟨hst, ⟨hholds, _⟩, _, _, hmem⟩ => ⟨hholds, fun v hv a ha => ?_⟩
  obtain ⟨r, hr, hfound⟩ := (hmem v).1 hv
  have howns := (hst.2.1 hs hp).2.pointees r v hfound a ha
  exact (h.2 r hr a ((hs.arena.owns_iff hst.1.arena (h.1 r hr)).1 howns)).visits hs hst.1

/-- An unknown callee owns nothing, so nothing needs a source. -/
theorem unknownCallee_supplied (call : ExprId) (hs : s.WellFormed) (hp : s.Parted) :
    Meets .quiet (unknownCallee u call) s fun v t => Supplied u D (.singleton v) t := by
  refine Meets.mono (((admitsDenoting_quiet u).unknown call hs).both
    (unknownCallee_recalls u call hs)).frame
    fun v t _ ⟨hst, ⟨hfun, _⟩, _, ⟨⟨o, ho, hfound⟩, _⟩, _⟩ => ?_
  refine ⟨.singleton (Arena.lt_of_isFunction hfun), fun w hw a ha => ?_⟩
  rw [(VarSet.mem_singleton v w).1 hw] at ha
  exact absurd ha ((hst.2.1 hs hp).2.unowned o call v ho.1 hfound a)

/-- A literal is a source itself. -/
theorem literalVariable_supplied {value : String} (hx : u.expr e = .ok (.stringLiteral value))
    (hs : s.WellFormed) :
    Meets .quiet (literalVariable u e value) s fun v t => Supplied u D (.singleton v) t := by
  refine Meets.mono (((admitsDenoting_quiet u).literal e value hs hx).both
    (literalVariable_recalls u e value hs))
    fun v t _ ⟨⟨hptr, _⟩, _, ⟨⟨o, ho, hfound⟩, _⟩, _⟩ => ?_
  refine ⟨.singleton (Arena.lt_of_isPointer hptr), fun w hw a ha => ?_⟩
  rw [(VarSet.mem_singleton v w).1 hw] at ha
  exact .literal ho.1 hfound ha

theorem denoteCall_supplied {call : ExprId} {target : DeclId}
    (hd : D (.denoted .declaration target)) (hs : s.WellFormed) (hp : s.Parted) :
    Meets .quiet (denoteCall u call target) s fun set t => Supplied u D set t := by
  refine Meets.bind_lift fun d _ => ?_
  split
  · exact Meets.unresolved
  · refine Meets.bind (denoteDecl_supplied hd hs) fun found t hst hfound => Meets.bind_get ?_
    obtain ⟨ht, htp⟩ := hst.2.1 hs hp
    dsimp only
    split
    · next f hf =>
      exact Meets.pure (hfound.slot ht (List.mem_of_getLast? hf) List.mem_cons_self)
    · exact Meets.bind (unknownCallee_supplied call ht htp) fun v w _ hv => Meets.pure hv

/-- Whatever an expression denotes has its source among what it draws on: one case for each kind. -/
theorem denoteWithin_supplied (n : Nat) (hs : s.WellFormed) (hp : s.Parted)
    (hD : Covers u D view e) :
    Meets .quiet (denoteWithin u n e view) s fun set t => Supplied u D set t := by
  induction n generalizing s e view with
  | zero => exact Meets.unresolved
  | succ n ih =>
    refine Meets.bind_lift fun y hy => ?_
    have operand : ∀ {o}, o ∈ y.denotedOperands → Covers u D view o := fun ho =>
      hD.operand hy ho
    cases y with
    | paren inner | implicitCast inner | bindTemporary inner =>
      exact ih hs hp (operand List.mem_cons_self)
    | declRef d | member _ d => exact denoteDecl_supplied (hD view d (.name hy rfl)) hs
    | binary _ lhs rhs =>
      refine Meets.bind (ih hs hp (operand List.mem_cons_self)) fun left t hst hleft => ?_
      obtain ⟨ht, htp⟩ := hst.2.1 hs hp
      refine Meets.bind (ih ht htp (operand (List.mem_cons_of_mem _ List.mem_cons_self)))
        fun right w htw hright => Meets.pure ?_
      exact (hleft.visits ht htw.1).union hright
    | subscript base index =>
      refine Meets.bind (ih hs hp (operand List.mem_cons_self)) fun set t hst hset => ?_
      obtain ⟨ht, htp⟩ := hst.2.1 hs hp
      exact dereference_supplied hset ht htp
    | unary op inner =>
      have hinner := ih hs hp (operand (o := inner) List.mem_cons_self)
      cases op with
      | deref =>
        refine Meets.bind hinner fun set t hst hset => Meets.bind_get ?_
        obtain ⟨ht, htp⟩ := hst.2.1 hs hp
        split
        · exact Meets.unresolved
        · exact dereference_supplied hset ht htp
      | addrOf | neg | not => exact hinner
    | call callee args =>
      refine Meets.bind_lift fun target htarget => ?_
      split
      · exact denoteCall_supplied (hD _ _ (.called hy htarget)) hs hp
      · have hcallee : Covers u D .declaration callee := fun view' d hd =>
          hD view' d (.computed hy htarget hd)
        refine Meets.bind (ih hs hp hcallee) fun callees t hst hcallees => ?_
        exact Meets.bind_get (Meets.pure (hcallees.returns (hst.2.1 hs hp).1))
    | conditional cond whenTrue whenFalse =>
      have hsecond := List.mem_cons_of_mem cond (List.mem_cons_self (a := whenTrue) (l := [whenFalse]))
      refine Meets.bind (ih hs hp (operand List.mem_cons_self)) fun first t hst hfirst => ?_
      obtain ⟨ht, htp⟩ := hst.2.1 hs hp
      refine Meets.bind (ih ht htp (operand hsecond)) fun second w htw hsecond => ?_
      obtain ⟨hw, hwp⟩ := htw.2.1 ht htp
      refine Meets.bind (ih hw hwp (operand (List.mem_cons_of_mem _ (List.mem_cons_of_mem _
        List.mem_cons_self)))) fun third z hwz hthird => Meets.pure ?_
      have hboth := (hfirst.visits ht htw.1).union hsecond
      exact (hboth.visits hw hwz.1).union hthird
    | stringLiteral value =>
      exact Meets.bind (literalVariable_supplied hy hs) fun v t _ hv => Meets.pure hv
    | intLiteral _ | cast _ _ | sizeOf _ => exact Meets.pure (.empty s)

theorem denote_supplied (hs : s.WellFormed) (hp : s.Parted) (hD : Covers u D view e) :
    Meets .quiet (denote u e view) s fun set t => Supplied u D set t :=
  Meets.bind_requireOpen fun _ _ => denoteWithin_supplied _ hs hp hD

end Session

/-! ## Following -/

def Frame.sources (u : TranslationUnit) (D : Lookup → Prop) : Frame where
  rel s t := s.WellFormed → s.Parted → s.Visits t ∧ t.Parted ∧
    ∀ a b, .equal a b ∈ t.solver.constraints →
      .equal a b ∈ s.solver.constraints ∨ Session.Sourced u D t a ∧ Session.Sourced u D t b
  refl s _ hp := ⟨.refl s, hp, fun _ _ => .inl⟩
  trans h h' hs hp := by
    obtain ⟨hst, htp, hfirst⟩ := h hs hp
    obtain ⟨htw, hwp, hothers⟩ := h' (hst.wellFormed hs) htp
    refine ⟨hst.trans htw, hwp, fun a b hab => ?_⟩
    rcases hothers a b hab with hab | hab
    · exact (hfirst a b hab).imp_right fun ⟨ha, hb⟩ =>
        ⟨ha.visits (hst.wellFormed hs) htw, hb.visits (hst.wellFormed hs) htw⟩
    · exact .inr hab

namespace Session

variable {options : Options} {u : TranslationUnit} {D : Lookup → Prop} {view : Viewpoint}
  {s t w : Session} {a b : Atom} {x y set : VarSet} {e : ExprId} {α : Type} {op : Op α}
  {Q : α → Session → Prop}

theorem sources_of_quiet (h : Frame.quiet.rel s t) : (Frame.sources u D).rel s t :=
  fun hs hp => ⟨h.1, (h.2.1 hs hp).2, fun a b hab => .inl (h.2.2 a b hab)⟩

theorem quiet_meets (h : Meets .quiet op s Q) : Meets (.sources u D) op s Q :=
  h.widen fun _ => sources_of_quiet

/-- Recording that equates nothing is quiet. -/
theorem records_quiet (h : Meets .records op s Q) (hstays : Stays .unequated op) :
    Meets .quiet op s fun _ _ => True :=
  (h.inf (hstays s)).any.widen fun _ ⟨hst, heq⟩ => ⟨hst.creates.visits, hst.parts, heq⟩

theorem boundSet_quiet (set : VarSet) (c : Category) (s : Session) :
    Meets .quiet (discard (boundSet set c)) s fun _ _ => True :=
  Meets.discard (records_quiet (boundSet_meets set c s) (boundSet_unequated set c))

theorem candidates_quiet {o : OpenUnit} (ho : s.opened = some o)
    (found : List (DeclId × List ExprId)) :
    Frame.quiet.rel s { s with opened := some { o with candidates := found } } := by
  have hst := ((setCandidates_meets found ho).of_ends (a := ⟨⟩) (ends_modify.2 rfl)).1
  exact ⟨hst, candidates_parts ho found, unequated_of_solver rfl⟩

/-- An equation between two atoms that have their sources. -/
theorem addEquation_sources (hs : s.WellFormed) (hst : s.Records t) (ha : Sourced u D s a)
    (hb : Sourced u D s b) :
    Meets (Frame.records.inf (.sources u D)) (discard (addConstraint (.equal a b))) t
      fun _ _ => True := by
  refine Meets.discard (addConstraint_changes fun _ w hends => ?_)
  obtain ⟨htw, hadds⟩ := (addConstraint_adds _ t).of_ends hends
  have hsw : s.Visits w := (hst.trans htw).creates.visits
  refine ⟨htw, fun ht hp => ⟨htw.creates.visits, hp.creates ht htw.creates, fun c d hcd => ?_⟩⟩
  refine (hadds _ hcd).imp_right fun heq => ?_
  rw [Constraint.normalized] at heq
  split at heq <;> cases heq
  · exact ⟨hb.visits hs hsw, ha.visits hs hsw⟩
  · exact ⟨ha.visits hs hsw, hb.visits hs hsw⟩

/-- What two sourced variables have equated comes from their sources. -/
theorem equate_sources {v v' : VarId} (hs : s.WellFormed) (hst : s.Records t)
    (hv : ∀ a, s.arena.Owns v a → Sourced u D s a) (hv' : ∀ a, s.arena.Owns v' a → Sourced u D s a) :
    Meets (Frame.records.inf (.sources u D)) (equate v v') t fun _ _ => True := by
  refine Meets.bind_get (Meets.bind_known fun eqs heqs => ?_)
  rw [hst.arena] at heqs
  refine (Meets.forM (P := fun _ _ => True) (fun _ _ _ _ h => h) fun e he w htw => ?_).any
  obtain ⟨hfirst, hsecond⟩ := hs.arena.findsBetween _ heqs e he
  exact addEquation_sources hs (hst.trans htw.1) (hfirst.elim (hv _) (hv' _))
    (hsecond.elim (hv _) (hv' _))

theorem equateSets_sources (hs : s.WellFormed) (hx : Supplied u D x s) (hy : Supplied u D y s) :
    Meets (.sources u D) (equateSets x y) s fun _ _ => True := by
  have hall : Meets (Frame.records.inf (.sources u D)) (equateSets x y) s fun _ _ => True := by
    refine (Meets.forM (P := fun _ _ => True) (fun _ _ _ _ h => h) fun v hv t hst => ?_).any
    refine (Meets.forM (P := fun _ _ => True) (fun _ _ _ _ h => h) fun v' hv' w htw => ?_).any
    exact equate_sources hs (hst.1.trans htw.1) (hx.2 v hv) (hy.2 v' hv')
  exact hall.widen fun _ h => h.2

/-! ## Assignments and calls -/

/-- The operand of a conversion is looked up, and so it is a source of what is equated. -/
theorem flowThroughCast_sources {operand : ExprId} {ty : CType} (ho : s.options = options)
    (hs : s.WellFormed) (hp : s.Parted) (hx : Supplied u D x s)
    (hD : u.isAllowedCall options operand = .ok false → Covers u D view operand) :
    Meets (.sources u D) (flowThroughCast u view x ty operand) s fun _ _ => True := by
  refine Meets.bind_get (Meets.bind_lift fun allowed hallowed => ?_)
  rw [ho] at hallowed
  split
  · exact Meets.pure trivial
  · next hno =>
    have hcall := hD (by rw [hallowed, Bool.eq_false_iff.2 hno])
    refine Meets.bind (quiet_meets (denote_supplied hs hp hcall).frame)
      fun values t _ ⟨hst, hvalues⟩ => Meets.bind_lift fun declared _ => ?_
    have ht := hst.1.wellFormed hs
    have hequate : ∀ w, Frame.quiet.rel t w →
        Meets (.sources u D) (equateSets x values) w fun _ _ => True := fun w htw =>
      equateSets_sources (htw.1.wellFormed ht) ((hx.visits hs hst.1).visits ht htw.1)
        (hvalues.visits ht htw.1)
    dsimp only
    split
    · split
      · exact Meets.bind (quiet_meets (boundSet_quiet values .leastSafe t).frame)
          fun _ w _ ⟨htw, _⟩ => hequate w htw
      · exact hequate t (Frame.quiet.refl t)
    · exact hequate t (Frame.quiet.refl t)

/-- A value equates its targets with what it carries, and with nothing of an allowed external call.
-/
theorem flowInto_sources {named : Option DeclId} {value : ExprId} (ho : s.options = options)
    (hs : s.WellFormed) (hp : s.Parted) (hx : Supplied u D x s)
    (hD : ∀ e, u.Carries options value e → Covers u D view e) :
    Meets (.sources u D) (flowInto u view x named value) s fun _ _ => True := by
  have hvalue : ∀ t, Frame.quiet.rel s t →
      Meets (.sources u D) (flowInto u view x none value) t fun _ _ => True := by
    intro t hst
    obtain ⟨ht, htp⟩ := hst.2.1 hs hp
    have ho : t.options = options := hst.1.options.trans ho
    have hx := hx.visits hs hst.1
    refine Meets.bind_lift fun core hcore => Meets.bind_lift fun y hy => ?_
    split
    · exact flowThroughCast_sources ho ht htp hx fun hcall => hD _ (.converted hcore hy hcall)
    · next hplain =>
      refine Meets.bind_get (Meets.bind_lift fun allowed hallowed => ?_)
      rw [ho] at hallowed
      split
      · exact Meets.pure trivial
      · next hno =>
        have hcall : u.isAllowedCall options core = .ok false := by
          rw [hallowed, Bool.eq_false_iff.2 hno]
        refine Meets.bind (quiet_meets (denote_supplied ht htp
          (hD value (.plain hcore hy hplain hcall))).frame) fun values w _ ⟨htw, hvalues⟩ => ?_
        exact equateSets_sources (htw.1.wellFormed ht) (hx.visits ht htw.1) hvalues
  cases named with
  | none => exact hvalue s (Frame.quiet.refl s)
  | some target =>
    rw [flowInto_some]
    exact Meets.bind (quiet_meets (noteAllocation_stays candidates_quiet target s).frame)
      fun _ t _ ⟨hst, _⟩ => hvalue t hst

theorem needBounds_quiet (hs : s.WellFormed) :
    Meets .quiet (needBounds u view e) s fun _ _ => True := by
  refine Meets.bind (denote_recalls_of (admitsDenoting_quiet u) e view hs) fun set t _ _ => ?_
  refine (Meets.forM (P := fun _ _ => True) (fun _ _ _ _ h => h) fun v _ w _ => ?_).any
  refine Meets.bind_get ?_
  split
  · exact Meets.discard (records_quiet (addConstraint_meets _ w) (addBound_stays _ _))
  · exact Meets.pure trivial

/-- Arguments are equated with slots, and both are looked up. -/
theorem passArguments_sources {slots : List VarSet} {args : List ExprId} (hs : s.WellFormed)
    (hp : s.Parted) (hslots : ∀ slot ∈ slots, Supplied u D slot s)
    (hD : ∀ arg ∈ args, Covers u D view arg) :
    Meets (.sources u D) (passArguments u view slots args) s fun _ _ => True := by
  induction args generalizing s slots with
  | nil =>
    rw [passArguments]
    exact Meets.pure trivial
  | cons arg rest ih =>
    rw [passArguments]
    obtain ⟨harg, hrest⟩ := List.forall_mem_cons.1 hD
    refine Meets.bind (quiet_meets (denote_supplied hs hp harg).frame) fun values t _ h => ?_
    obtain ⟨hst, hvalues⟩ := h
    obtain ⟨ht, htp⟩ := hst.2.1 hs hp
    cases slots with
    | nil =>
      refine Meets.bind (quiet_meets (boundSet_quiet values .leastSafe t).frame)
        fun _ w _ htw => ?_
      obtain ⟨hw, hwp⟩ := htw.1.2.1 ht htp
      exact ih hw hwp (fun _ hslot => absurd hslot List.not_mem_nil) hrest
    | cons slot slots =>
      obtain ⟨hslot, hothers⟩ := List.forall_mem_cons.1 hslots
      refine Meets.bind (equateSets_sources ht (hslot.visits hs hst.1) hvalues)
        fun _ w htw _ => ?_
      obtain ⟨htw, hwp, -⟩ := htw ht htp
      exact ih (htw.wellFormed ht) hwp (fun slot' hslot' =>
        (hothers slot' hslot').visits hs (hst.1.trans htw)) hrest

structure CoversCall (u : TranslationUnit) (D : Lookup → Prop) (view : Viewpoint)
    (call callee : ExprId) (args : List ExprId) : Prop where
  called : ∀ target, u.namedCallee call = .ok (some target) → D (.denoted .declaration target)
  computed : u.namedCallee call = .ok none → Covers u D view callee
  args : ∀ arg ∈ args, Covers u D view arg

/-- A call that is not exempt equates what its callee and its arguments are looked up as. -/
theorem followCall_sources {call callee : ExprId} {args : List ExprId} (ho : s.options = options)
    (hs : s.WellFormed) (hp : s.Parted)
    (hD : u.isAllowedCall options call = .ok false → CoversCall u D view call callee args) :
    Meets (.sources u D) (followCall u view call callee args) s fun _ _ => True := by
  refine Meets.bind_get (Meets.bind_lift fun allowed hallowed => ?_)
  rw [ho] at hallowed
  split
  · exact Meets.pure trivial
  · next hno =>
    have hD := hD (by rw [hallowed, Bool.eq_false_iff.2 hno])
    have hcandidates : Meets .quiet (calleeVariables u view call callee) s fun set t =>
        Supplied u D set t := by
      refine Meets.bind_lift fun target htarget => ?_
      split
      · refine Meets.bind_lift fun d _ => ?_
        split
        · exact denoteDecl_supplied (hD.called _ htarget) hs
        · exact Meets.unresolved
      · exact denote_supplied hs hp (hD.computed htarget)
    refine Meets.bind (quiet_meets hcandidates.frame) fun candidates t _ ⟨hst, hfound⟩ =>
      Meets.bind_get ?_
    obtain ⟨ht, htp⟩ := hst.2.1 hs hp
    dsimp only
    split
    · next f hf =>
      exact passArguments_sources ht htp (fun slot hslot => hfound.slot ht
        (List.mem_of_getLast? hf) (List.mem_cons_of_mem _ hslot)) hD.args
    · exact Meets.pure trivial

/-! ## Attempts -/

section

variable {step : FlowStep}

/-- Each node on the route of an attempt equates only what that attempt looks up. -/
theorem visitNode_sources {p : Nat × ExprId} (ho : s.options = options) (hs : s.WellFormed)
    (hp : s.Parted) (hnode : u.Inside p.2 step.root) :
    Meets (.sources u (step.LooksUp u options)) (visitNode u step.view p) s fun _ _ => True := by
  have covers : ∀ {e}, step.Equates u options e → Covers u (step.LooksUp u options) step.view e :=
    fun he view' d hd => .drawn he hd
  obtain ⟨n, e⟩ := p
  cases n with
  | zero => exact Meets.unresolved
  | succ n =>
    refine Meets.bind_lift fun y hy => ?_
    cases y with
    | subscript base index =>
      refine Meets.bind_lift fun zero _ => ?_
      split
      · exact quiet_meets (needBounds_quiet hs)
      · exact Meets.pure trivial
    | binary op lhs rhs =>
      cases op with
      | assign =>
        refine Meets.bind (quiet_meets (denote_supplied hs hp
          (covers (.target hnode hy))).frame) fun targets t _ ⟨hst, htargets⟩ => ?_
        obtain ⟨ht, htp⟩ := hst.2.1 hs hp
        refine Meets.bind_lift fun named _ => ?_
        exact flowInto_sources (hst.1.options.trans ho) ht htp htargets fun e he =>
          covers (.assigned hnode hy he)
      | _ => exact Meets.pure trivial
    | call callee args =>
      exact followCall_sources ho hs hp fun hcall =>
        ⟨fun target htarget => .called hnode hy hcall htarget,
          fun hnone => covers (.computed hnode hy hcall hnone),
          fun arg harg => covers (.argument hnode hy hcall harg)⟩
    | stringLiteral value =>
      exact Meets.discard (quiet_meets
        (Meets.any (denote_recalls_of (admitsDenoting_quiet u) e step.view hs)))
    | _ => exact Meets.pure trivial

theorem declaredReturns_supplied {func : DeclId} (hD : D (.stored func)) (hs : s.WellFormed) :
    Meets .quiet (declaredReturns u func) s fun set t => Supplied u D set t := by
  refine Meets.bind (Meets.frame (storedFor_recalls_of (admitsDenoting_quiet u) func hs))
    fun stored t _ ⟨hst, _, hreplays⟩ => Meets.bind_get (Meets.pure ?_)
  have ht := hst.1.wellFormed hs
  have hreturn : ∀ v ∈ VarSet.ofList
      ((stored.members.filterMap t.arena.function?).flatMap (·.returns.members)),
      ∃ w ∈ stored, ∃ f, t.arena.function? w = some f ∧ v ∈ f.returns := by
    intro v hv
    rw [VarSet.mem_ofList, List.mem_flatMap] at hv
    obtain ⟨f, hf, hv⟩ := hv
    obtain ⟨w, hw, hf⟩ := List.mem_filterMap.1 hf
    exact ⟨w, hw, f, hf, hv⟩
  constructor
  · intro v hv
    obtain ⟨w, -, f, hf, hv⟩ := hreturn v hv
    exact Arena.lt_of_isPointer ((ht.arena.slots hf List.mem_cons_self).isPointer hv)
  · intro v hv a ha
    obtain ⟨w, hw, f, hf, hv⟩ := hreturn v hv
    exact .found hD (hreplays t (Frame.quiet.refl t)) hw
      ((ht.arena.owns_function hf).2 ⟨f.returns, List.mem_cons_self, v, hv, ha⟩)

/-- What an attempt delivers comes from lookups of that attempt. -/
theorem deliver_sources (ho : s.options = options) (hs : s.WellFormed) (hp : s.Parted) :
    Meets (.sources u (step.LooksUp u options)) (step.deliver u) s fun _ _ => True := by
  have carried : ∀ {value}, step.value? = some value → ∀ e, u.Carries options value e →
      Covers u (step.LooksUp u options) step.view e :=
    fun hvalue e he view' d hd => .drawn (.delivered hvalue he) hd
  cases step with
  | expr _ => exact Meets.pure trivial
  | ret func value =>
    have hreturned : (FlowStep.ret func value).LooksUp u options (.stored func) := .returned rfl
    refine Meets.bind (quiet_meets (declaredReturns_supplied hreturned hs).frame)
      fun returns t _ ⟨hst, hreturns⟩ => ?_
    obtain ⟨ht, htp⟩ := hst.2.1 hs hp
    exact flowInto_sources (hst.1.options.trans ho) ht htp hreturns (carried rfl)
  | init view var value =>
    have hvar : (FlowStep.init view var value).LooksUp u options (.denoted view var) :=
      .initialized rfl
    refine Meets.bind (quiet_meets (denoteDecl_supplied hvar hs).frame)
      fun targets t _ ⟨hst, htargets⟩ => ?_
    obtain ⟨ht, htp⟩ := hst.2.1 hs hp
    exact flowInto_sources (hst.1.options.trans ho) ht htp htargets (carried rfl)

/-- An attempt equates nothing but what it looks up. -/
theorem run_sources (ho : s.options = options) (hs : s.WellFormed) (hp : s.Parted) :
    Meets (.sources u (step.LooksUp u options)) (step.run u) s fun _ _ => True := by
  rw [FlowStep.run_eq]
  refine Meets.bind (deliver_sources ho hs hp) fun _ t hst _ => ?_
  obtain ⟨hst, htp, -⟩ := hst hs hp
  have ht := hst.wellFormed hs
  refine (Meets.forM (P := fun _ _ => True) (fun _ _ _ _ h => h) fun p hmem w htw => ?_).any
  obtain ⟨htw, hwp, -⟩ := htw ht htp
  exact visitNode_sources ((htw.options.trans hst.options).trans ho) (htw.wellFormed ht) hwp
    (TranslationUnit.inside_of_mem_route hmem)

end

theorem Sourced.mono {D' : Lookup → Prop} (h : Sourced u D s a) (hD : ∀ l, D l → D' l) :
    Sourced u D' s a := by
  cases h with
  | found hl hset hv ha => exact .found (hD _ hl) hset hv ha
  | literal ho hv ha => exact .literal ho hv ha

/-- Every equation that following a unit records is between atoms that come from what one of its
attempts looks up for something that it equates. -/
theorem flow_sources {summary : FlowSummary} (hs : s.WellFormed) (hp : s.Parted)
    (h : (flow u).Ends s summary t) :
    ∃ steps, u.steps = .ok steps ∧ t.Parted ∧ ∀ a b, .equal a b ∈ t.solver.constraints →
      .equal a b ∈ s.solver.constraints ∨
        Sourced u (fun l => ∃ step ∈ steps, step.LooksUp u s.options l) t a ∧
          Sourced u (fun l => ∃ step ∈ steps, step.LooksUp u s.options l) t b := by
  obtain ⟨steps, hsteps, hattempts⟩ := ends_flow h
  have hall : Meets (.sources u fun l => ∃ step ∈ steps, step.LooksUp u s.options l)
      (attemptAll u steps) s fun _ _ => True := by
    refine (Meets.forM (P := fun _ _ => True) (fun _ _ _ _ h => h) fun step hstep w hsw => ?_).any
    obtain ⟨hsw, hwp, -⟩ := hsw hs hp
    have hw := hsw.wellFormed hs
    refine Meets.discard (Meets.attempted (Q := fun _ _ => True) ?_)
    refine (run_sources hsw.options hw hwp).widen fun z hwz hw' hwp' => ?_
    obtain ⟨hwz, hzp, hequal⟩ := hwz hw' hwp'
    exact ⟨hwz, hzp, fun a b hab => (hequal a b hab).imp_right fun ⟨ha, hb⟩ =>
      ⟨ha.mono fun l hl => ⟨step, hstep, hl⟩, hb.mono fun l hl => ⟨step, hstep, hl⟩⟩⟩
  obtain ⟨-, htp, hequal⟩ := (hall.of_ends hattempts).1 hs hp
  exact ⟨steps, hsteps, htp, hequal⟩

end Session

end CheckedPointers
