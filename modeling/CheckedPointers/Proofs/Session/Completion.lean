import CheckedPointers.Proofs.Session.Progress
import CheckedPointers.Proofs.Session.Requests

/-!
Following a closed unit and linking come to their end. A statement may be given up, but giving up
ends with the statement.
-/
namespace CheckedPointers

open Op TranslationUnit

namespace Session

variable {s t : Session} {may : Failure → Prop} {u : TranslationUnit} {α β : Type} {x : Op α}
  {f : α → Op β} {P : α → Session → Prop} {e : ExprId} {view : Viewpoint}

/-- A visit leaves the unit open. -/
theorem Ready.bind_visits (hr : Ready u s) (hx : FailsOnly may x s) (hm : Meets .visits x s P)
    (hf : ∀ a t, s.Visits t → Ready u t → P a t → FailsOnly may (f a) t) :
    FailsOnly may (x >>= f) s :=
  hx.bind_meets hm fun a t hst ha => hf a t hst (hr.visits hst) ha

/-! ## Assignments and calls -/

theorem isCandidate_addCandidate (o : OpenUnit) (d : DeclId) :
    (o.addCandidate d).isCandidate d := by
  unfold OpenUnit.addCandidate
  split
  · assumption
  · simp [OpenUnit.isCandidate]

/-- A size is added to what was flagged just before. -/
theorem noteAllocation_failsOnly (hu : u.Closed) (hr : Ready u s) (target : DeclId)
    (he : e < u.exprs.size) : FailsOnly may (noteAllocation u target e) s := by
  obtain ⟨o, ho⟩ := hr.isOpen
  apply FailsOnly.bind_gives (hu.allocationSize?_gives he)
  intro size _ _
  split
  · have hflag : (flagArray u target).Ends s ⟨⟩ { s with opened := some (o.addCandidate target) } :=
      ends_bind.2 ⟨o, s, ends_current ho, rfl⟩
    have hsame : (o.addCandidate target).id = o.id ∧ (o.addCandidate target).file = o.file := by
      unfold OpenUnit.addCandidate
      split <;> exact ⟨rfl, rfl⟩
    apply FailsOnly.bind_ends hflag
    apply FailsOnly.bind_current ⟨rfl, hsame.1.trans ho.2.1, hsame.2.trans ho.2.2⟩
    rw [if_pos (isCandidate_addCandidate o target)]
    exact .of_ends rfl
  · exact .pure

/-- A conversion cannot fail on its own: the operand is there, and so is its declared type. -/
theorem flowThroughCast_failsOnly (hmay : Excuses u may e) (hu : u.Closed) (hr : Ready u s)
    {targets : VarSet} (htargets : Holds targets s) (ty : CType) (he : e < u.exprs.size) :
    FailsOnly may (flowThroughCast u view targets ty e) s := by
  apply FailsOnly.bind_get
  apply FailsOnly.bind_gives (hu.isAllowedCall_gives _ he)
  intro allowed _ _
  split
  · exact .pure
  · apply hr.bind (denote_failsOnly hmay hu hr he) (denote_recalls u e view hr.wellFormed)
    intro set t hst hrt hset
    have htargets := htargets.extends hst.toExtends
    apply FailsOnly.bind_gives (hu.staticType?_gives he)
    intro declared _ _
    have hequate : ∀ w, t.Records w → FailsOnly may (equateSets targets set) w := fun w htw =>
      equateSets_failsOnly (htw.creates.wellFormed hrt.wellFormed)
        (htargets.extends htw.creates.toExtends) (hset.extends htw.creates.toExtends)
    have hbound : Meets .records (discard (boundSet set .leastSafe)) t fun _ _ => True :=
      Meets.discard (boundSet_meets set _ t).any
    dsimp only
    split
    · split
      · exact (boundSet_failsOnly hrt.wellFormed hset).discard.bind_meets hbound
          fun _ w htw _ => hequate w htw
      · exact hequate t (.refl t)
    · exact hequate t (.refl t)

theorem Excuses.unparen {core : ExprId} (hmay : Excuses u may e) (h : u.unparen e = .ok core) :
    Excuses u may core :=
  of_unwrapWithin (P := fun e => Excuses u may e → Excuses u may core) h id
    (fun _ _ => Expr.uncast?_of_unparen?)
    (fun hx hinner ih hmay => ih (hmay.operand hx (Expr.mem_operands_of_uncast? hinner))) hmay

/-- A value reaches its targets unless its own expression excuses a failure. -/
theorem flowInto_failsOnly (hmay : Excuses u may e) (hu : u.Closed) (hr : Ready u s)
    {targets : VarSet} (htargets : Holds targets s) (named : Option DeclId)
    (he : e < u.exprs.size) :
    FailsOnly may (flowInto u view targets named e) s := by
  have hvalue : ∀ t, s.Visits t → FailsOnly may (flowInto u view targets none e) t := by
    intro t hst
    have hrt := hr.visits hst
    have htargets := htargets.extends hst.toExtends
    apply FailsOnly.bind_gives (hu.unparen_gives he)
    intro core hunparen hcore
    apply FailsOnly.bind_gives (expr_gives hcore)
    intro y hy _
    split
    · have hoperand := hu.operand_lt hy List.mem_cons_self
      have hmay := (hmay.unparen hunparen).operand hy List.mem_cons_self
      exact flowThroughCast_failsOnly hmay hu hrt htargets _ hoperand
    · apply FailsOnly.bind_get
      apply FailsOnly.bind_gives (hu.isAllowedCall_gives _ hcore)
      intro allowed _ _
      split
      · exact .pure
      · apply hrt.bind (denote_failsOnly hmay hu hrt he) (denote_recalls u e view hrt.wellFormed)
        intro set w htw hrw hset
        exact equateSets_failsOnly hrw.wellFormed (htargets.extends htw.toExtends) hset
  cases named with
  | none => exact hvalue s (.refl s)
  | some target =>
    rw [flowInto_some]
    exact (noteAllocation_failsOnly hu hr target he).bind_meets (noteAllocation_meets u target e s)
      fun _ t hst _ => hvalue t hst

/-- A subscripted base gets its bounds unless its expression excuses a failure. -/
theorem needBounds_failsOnly (hmay : Excuses u may e) (hu : u.Closed) (hr : Ready u s)
    (he : e < u.exprs.size) : FailsOnly may (needBounds u view e) s := by
  apply hr.bind (denote_failsOnly hmay hu hr he) (denote_recalls u e view hr.wellFormed)
  intro set t _ hrt _
  apply FailsOnly.forM_records hrt.wellFormed
  · intro v _ w _ hw
    apply FailsOnly.bind_get
    split
    · next a ha =>
      obtain ⟨p, hp, hhead⟩ := Option.bind_eq_some_iff.1 ha
      have hknown := hw.arena.atom_lt hp (List.mem_of_head? hhead)
      exact (addConstraint_failsOnly (c := .atLeast a .arr) hknown).discard
    · exact .pure
  · intro v _ w
    apply Meets.bind_get
    split
    · exact Meets.discard (addConstraint_meets _ w).any
    · exact Meets.pure trivial

/-- Arguments are passed unless one of them excuses a failure. -/
theorem passArguments_failsOnly (hu : u.Closed) (hr : Ready u s) {slots : List VarSet}
    {args : List ExprId} (hmay : ∀ arg ∈ args, Excuses u may arg)
    (hslots : ∀ slot ∈ slots, Holds slot s)
    (hargs : ∀ arg ∈ args, arg < u.exprs.size) :
    FailsOnly may (passArguments u view slots args) s := by
  induction args generalizing s slots with
  | nil =>
    rw [passArguments]
    exact .pure
  | cons arg rest ih =>
    obtain ⟨hfirst, hmay⟩ := List.forall_mem_cons.1 hmay
    obtain ⟨harg, hrest⟩ := List.forall_mem_cons.1 hargs
    rw [passArguments]
    apply hr.bind (denote_failsOnly hfirst hu hr harg) (denote_recalls u arg view hr.wellFormed)
    intro values t hst hrt hvalues
    cases slots with
    | nil =>
      apply hrt.bind_visits (boundSet_failsOnly hrt.wellFormed hvalues).discard
        (boundSet_visits values t)
      intro _ w _ hrw _
      exact ih hrw hmay (fun _ hslot => absurd hslot List.not_mem_nil) hrest
    | cons slot slots =>
      have hslots : ∀ y ∈ slot :: slots, Holds y t := fun y hy =>
        (hslots y hy).extends hst.toExtends
      apply hrt.bind_visits
        (equateSets_failsOnly hrt.wellFormed (hslots slot List.mem_cons_self) hvalues)
        (equateSets_visits slot values t)
      intro _ w htw hrw _
      exact ih hrw hmay
        (fun y hy => (hslots y (List.mem_cons_of_mem _ hy)).extends htw.toExtends) hrest

theorem calleeVariables_failsOnly (hmay : Excuses u may e) (hu : u.Closed) (hr : Ready u s)
    {call : ExprId} (hcall : call < u.exprs.size) (he : e < u.exprs.size) :
    FailsOnly may (calleeVariables u view call e) s := by
  apply FailsOnly.bind_gives (hu.namedCallee_gives hcall)
  intro target _ htarget
  split
  · apply FailsOnly.bind_gives (decl_gives (htarget _ rfl))
    intro d _ _
    split
    · exact denoteDecl_failsOnly hmay.parameter hu hr (htarget _ rfl)
    · exact .unresolved (hmay.shape _ nofun)
  · exact denote_failsOnly hmay hu hr he

/-- A call is followed unless its callee or an argument excuses a failure. -/
theorem followCall_failsOnly (hmay : Excuses u may e) (hu : u.Closed) (hr : Ready u s)
    {call : ExprId} {args : List ExprId} (hall : ∀ arg ∈ args, Excuses u may arg)
    (hcall : call < u.exprs.size) (he : e < u.exprs.size)
    (hargs : ∀ arg ∈ args, arg < u.exprs.size) :
    FailsOnly may (followCall u view call e args) s := by
  apply FailsOnly.bind_get
  apply FailsOnly.bind_gives (hu.isAllowedCall_gives _ hcall)
  intro allowed _ _
  split
  · exact .pure
  · apply hr.bind_visits (calleeVariables_failsOnly hmay hu hr hcall he)
      (calleeVariables_recalls u view call e hr.wellFormed)
    intro candidates t _ hrt _
    apply FailsOnly.bind_get
    dsimp only
    split
    · next f hf =>
      obtain ⟨v, -, hv⟩ := List.mem_filterMap.1 (List.mem_of_getLast? hf)
      obtain ⟨w, hw⟩ := Arena.function?_of_reachableFunction? hv
      apply passArguments_failsOnly hu hrt hall _ hargs
      exact fun slot hslot y hy =>
        (hrt.wellFormed.arena.slot_lt hw (List.mem_cons_of_mem _ hslot) hy).2
    · exact .pure

/-! ## Expressions and statements -/

/-- Every kind of node is followed unless its operands excuse a failure. -/
theorem followNode_failsOnly (hmay : Excuses u may e) (hu : u.Closed) (hr : Ready u s) {y : Expr}
    (he : u.expr e = .ok y) : FailsOnly may (followNode u view e y) s := by
  have hlt : e < u.exprs.size := (Array.getElem?_eq_some_iff.1 (expr_eq_ok.1 he)).1
  have hop : ∀ o ∈ y.operands, o < u.exprs.size := fun o ho => hu.operand_lt he ho
  have hexcused : ∀ o ∈ y.operands, Excuses u may o := fun o ho => hmay.operand he ho
  cases y with
  | subscript base index =>
    have hbase := hop base (by simp [Expr.operands])
    apply FailsOnly.bind_gives (hu.isZero_gives (hop index (by simp [Expr.operands])))
    intro zero _ _
    split
    · exact needBounds_failsOnly (hexcused base (by simp [Expr.operands])) hu hr hbase
    · exact .pure
  | binary op lhs rhs =>
    cases op with
    | assign =>
      have hlhs := hop lhs (by simp [Expr.operands])
      apply hr.bind (denote_failsOnly (hexcused lhs (by simp [Expr.operands])) hu hr hlhs)
        (denote_recalls u lhs view hr.wellFormed)
      intro targets t _ hrt htargets
      apply FailsOnly.bind_gives (hu.assignedName?_gives hlhs)
      intro named _ _
      exact flowInto_failsOnly (hexcused rhs (by simp [Expr.operands])) hu hrt htargets named
        (hop rhs (by simp [Expr.operands]))
    | _ => exact .pure
  | call callee args =>
    have harg : ∀ arg ∈ args, arg ∈ (Expr.call callee args).operands :=
      fun arg harg => List.mem_cons_of_mem callee harg
    exact followCall_failsOnly (hexcused callee (by simp [Expr.operands])) hu hr
      (fun arg h => hexcused arg (harg arg h)) hlt (hop callee (by simp [Expr.operands]))
      fun arg h => hop arg (harg arg h)
  | stringLiteral value => exact (denote_failsOnly hmay hu hr hlt).discard
  | _ => exact .pure

/-- An expression is followed unless it excuses a failure: depth is the one further reason, and
`Descends` tells where it is met. -/
theorem followWithin_failsOnly (hmay : Excuses u may e) (hu : u.Closed) (n : Nat)
    (hdeep : ∀ o, u.Descends n e o → may (.unresolved (.tooDeep o))) (hr : Ready u s)
    (he : e < u.exprs.size) : FailsOnly may (followWithin u view n e) s := by
  induction n generalizing s e with
  | zero => exact .unresolved (hdeep e (.refl e))
  | succ n ih =>
    apply FailsOnly.bind_gives (expr_gives he)
    intro y hy _
    apply hr.bind_visits (followNode_failsOnly hmay hu hr hy)
      (followNode_meets u view hy hr.wellFormed)
    intro _ t _ hrt _
    apply FailsOnly.forM (I := Ready u) hrt
    · exact fun o ho w hw => ih (hmay.operand hy ho) (fun p hp => hdeep p (.operand hy ho hp)) hw
        (hu.operand_lt hy ho)
    · intro o _ w hw z hz
      exact hw.visits ((followWithin_meets u view n o hw.wellFormed).of_ends hz).1

theorem follow_failsOnly (hmay : Excuses u may e) (hu : u.Closed) (hr : Ready u s)
    (he : e < u.exprs.size) : FailsOnly may (follow u view e) s :=
  followWithin_failsOnly hmay hu _ (fun _ => hmay.deep (Nat.lt_succ_self _)) hr he

/-- An initializer flows unless its expression excuses a failure. -/
theorem followInitializer_failsOnly (hmay : Excuses u may e) (hu : u.Closed) (hr : Ready u s)
    {d : DeclId} (hd : d < u.decls.size) (he : e < u.exprs.size) :
    FailsOnly may (followInitializer u view d e) s := by
  apply hr.bind (denoteDecl_failsOnly hmay.parameter hu hr hd)
    (denoteDecl_recalls u d view hr.wellFormed)
  intro targets t _ hrt htargets
  apply hrt.bind_visits (flowInto_failsOnly hmay hu hrt htargets (some d) he)
    (flowInto_meets u view targets (some d) e hrt.wellFormed)
  exact fun _ w _ hrw _ => follow_failsOnly hmay hu hrw he

/-- A returned value flows unless its expression excuses a failure. -/
theorem followReturn_failsOnly (hmay : Excuses u may e) (hu : u.Closed) (hr : Ready u s)
    {func : DeclId} (hfunc : func < u.decls.size) (he : e < u.exprs.size) :
    FailsOnly may (followReturn u func e) s := by
  have hreturns : FailsOnly may (declaredReturns u func) s :=
    (storedFor_failsOnly hfunc).bind fun _ _ _ => FailsOnly.bind_get .pure
  apply hr.bind hreturns (declaredReturns_recalls u func hr.wellFormed)
  intro returns t _ hrt hholds
  apply hrt.bind_visits (flowInto_failsOnly hmay hu hrt hholds none he)
    (flowInto_meets u .body returns none e hrt.wellFormed)
  exact fun _ w _ hrw _ => follow_failsOnly hmay hu hrw he

theorem followStmt_failsOnly (hmay : ∀ e, Excuses u may e) (hu : u.Closed) (hr : Ready u s)
    {func : DeclId} (hfunc : func < u.decls.size) {st : Stmt}
    (hst : ∀ r, st.reference? = some r → u.Refers r) :
    FailsOnly may (followStmt u func st) s := by
  cases st with
  | expr e => exact follow_failsOnly (hmay e) hu hr (hst (.expr e) rfl)
  | ret value =>
    cases value with
    | some value => exact followReturn_failsOnly (hmay value) hu hr hfunc (hst (.expr value) rfl)
    | none => exact .pure
  | block _ => exact .pure
  | decl d =>
    have hd : d < u.decls.size := hst (.decl d) rfl
    apply FailsOnly.bind_gives (decl_gives hd)
    intro decl hdecl _
    split
    · next init hinit =>
      exact followInitializer_failsOnly (hmay init) hu hr hd (hu.init_lt hdecl hinit)
    · exact .pure

/-! ## Units -/

/-- A statement that is given up is counted, and the visit goes on. -/
theorem countStatement_failsOnly {y : Op PUnit}
    (h : FailsOnly (fun e => may e ∨ ∃ e', e = .unresolved e') y s) :
    FailsOnly may (countStatement y) s := by
  apply h.attempt.bind
  intro b t _
  split <;> exact .pure

theorem flowStmts_failsOnly (hu : u.Closed) (hr : Ready u s) {func : DeclId}
    (hfunc : func < u.decls.size) {sts : List Stmt}
    (hsts : ∀ st ∈ sts, ∀ r, st.reference? = some r → u.Refers r) :
    FailsOnly may (flowStmts u func sts) s := by
  induction sts generalizing s with
  | nil => exact .pure
  | cons st rest ih =>
    have hfirst : FailsOnly (fun e => may e ∨ ∃ e', e = .unresolved e') (followStmt u func st) s :=
      followStmt_failsOnly (fun _ => .of_all fun shape => .inr ⟨shape, rfl⟩) hu hr hfunc
        (hsts st List.mem_cons_self)
    apply hr.bind_visits (countStatement_failsOnly hfirst)
      (countStatement_meets (followStmt_meets u func st hr.wellFormed))
    intro _ t _ hrt _
    exact (ih hrt fun st hst => hsts st (List.mem_cons_of_mem _ hst)).bind fun _ _ _ => .pure

theorem flowDecl_failsOnly (hu : u.Closed) (hr : Ready u s) {id : DeclId}
    (hid : id < u.decls.size) : FailsOnly may (flowDecl u id) s := by
  apply FailsOnly.bind_gives (decl_gives hid)
  intro d hd _
  split
  · next init hinit =>
    exact countStatement_failsOnly (followInitializer_failsOnly
      (.of_all fun shape => .inr ⟨shape, rfl⟩) hu hr hid (hu.init_lt hd hinit))
  · next body _ hbody =>
    have hsts : ∀ st ∈ Stmt.unblocked body, ∀ r, st.reference? = some r → u.Refers r :=
      fun st hst r hr => hu.stmt_refers hd (by simpa [Decl.unblocked, hbody] using hst) hr
    exact (flowStmts_failsOnly hu hr hid hsts).bind fun _ _ _ => .pure
  · exact .pure

theorem flow_failsOnly (hu : u.Closed) (hr : Ready u s) : FailsOnly may (flow u) s := by
  have hids : ∀ id ∈ u.topLevel, id < u.decls.size := hu.topLevel
  unfold flow
  generalize u.topLevel = ids at hids
  induction ids generalizing s with
  | nil => exact .pure
  | cons id rest ih =>
    apply hr.bind_visits (flowDecl_failsOnly hu hr (hids id List.mem_cons_self))
      (flowDecl_meets u id hr.wellFormed)
    intro _ t _ hrt _
    exact (ih hrt fun d hd => hids d (List.mem_cons_of_mem _ hd)).bind fun _ _ _ => .pure

end Session

end CheckedPointers
