import CheckedPointers.Proofs.Session.Completion
import CheckedPointers.Proofs.Session.EchoedDenotation

/-!
Flow in other words. Units that say the same record the same constraints while they are visited,
and as many statements of them are given up.
-/
namespace CheckedPointers

namespace Session

open Op TranslationUnit

variable {u u' : TranslationUnit} (w : u.Rewording u') {e e' : ExprId}

/-- The sessions are the same but for spellings and numbers while the first unit is visited in one
and the second one in the other. -/
abbrev EchoesIn : Session → Session → Prop := Echoes w.Key (some (u.id, u.file))

/-! ## Allocations -/

/-- Noting an allocation changes nothing but the candidates of the open unit. -/
theorem noteAllocation_ends {u : TranslationUnit} (target : DeclId) {value : ExprId}
    {size : Option ExprId} (hsize : u.allocationSize? value = .ok size) {s : Session}
    {o : OpenUnit} (ho : IsOpen u o s) :
    ∃ candidates, (noteAllocation u target value).Ends s ⟨⟩
      { s with opened := some { o with candidates } } := by
  cases size with
  | none =>
    refine ⟨o.candidates, ?_⟩
    rw [noteAllocation, hsize, ← ho.1]
    rfl
  | some size =>
    have hadd : ∃ candidates, o.addCandidate target = { o with candidates } := by
      unfold OpenUnit.addCandidate
      split <;> exact ⟨_, rfl⟩
    obtain ⟨candidates, hadd⟩ := hadd
    have hflag : (flagArray u target).Ends s ⟨⟩ { s with opened := some (o.addCandidate target) } :=
      ends_bind.2 ⟨o, s, ends_current ho, rfl⟩
    have hcurrent := ends_current (u := u) (o := o.addCandidate target)
      (s := { s with opened := some (o.addCandidate target) })
      ⟨rfl, by rw [hadd]; exact ho.2.1, by rw [hadd]; exact ho.2.2⟩
    have hsized : (addArraySize u target size).Ends
        { s with opened := some (o.addCandidate target) } ⟨⟩
        { s with opened := some ((o.addCandidate target).addSize target size) } := by
      refine ends_bind.2 ⟨_, _, hcurrent, ?_⟩
      rw [if_pos (isCandidate_addCandidate o target)]
      rfl
    rw [hadd] at hflag hsized
    rw [noteAllocation, hsize]
    exact ⟨_, ends_bind.2 ⟨some size, s, rfl, ends_bind.2 ⟨_, _, hflag, hsized⟩⟩⟩

include w

/-- What is noted of an allocation may differ, and nothing else does. -/
theorem noteAllocation_echoes (target : DeclId) (h : w.Seen e e') :
    Matches (EchoesIn w) Eq (noteAllocation u target e) (noteAllocation u' target e') := by
  intro s t hst
  have hsize := w.allocationSize? h
  cases hz : u.allocationSize? e <;> cases hz' : u'.allocationSize? e' <;> rw [hz, hz'] at hsize
  · rw [noteAllocation, noteAllocation, hz, hz']
    exact .breaks
  · exact hsize.elim
  · exact hsize.elim
  · have hvisiting := hst.visiting
    have hopened := hst.opened
    cases hs : s.opened with
    | none =>
      rw [hs] at hvisiting
      cases hvisiting
    | some o =>
      cases ht : t.opened with
      | none =>
        rw [hs, ht] at hopened
        cases hopened
      | some o' =>
        rw [hs, ht] at hopened
        rw [hs, Option.map_some, Option.some.injEq, Prod.mk.injEq] at hvisiting
        cases hopened with
        | some h =>
          obtain ⟨candidates, hx⟩ := noteAllocation_ends target hz ⟨hs, hvisiting⟩
          obtain ⟨candidates', hy⟩ := noteAllocation_ends target hz'
            ⟨ht, by rw [h.id, hvisiting.1, w.id], by rw [h.file, hvisiting.2, w.file]⟩
          unfold Ends at hx hy
          rw [hx, hy]
          exact .ends { hst with
            opened := .some { h with }
            visiting := by rw [← hst.visiting, hs]; rfl } rfl

/-! ## Values -/

/-- Whether a conversion makes something wild depends on the erased types alone. -/
theorem flowThroughCast_echoes (view : Viewpoint) (targets : VarSet) {ty ty' : CType}
    (ht : ty.Rewords ty') (h : w.Told e e') (hq : w.Seen e e') :
    Matches (EchoesIn w) Eq (flowThroughCast u view targets ty e)
      (flowThroughCast u' view targets ty' e') := by
  apply Matches.bind_get
  intro s t hst
  rw [hst.options]
  refine Matches.bind_lift (w.isAllowedCall _ hq) fun allowed allowed' ha => ?_
  subst ha
  split
  · exact .pure rfl
  · refine (denote_echoes w h view).bind_eq fun set => ?_
    refine Matches.bind_lift (w.staticType? hq) fun declared declared' hdeclared => ?_
    cases hdeclared with
    | none => exact equateSets_echoes targets set
    | some hdeclared =>
      dsimp only
      rw [ht.alike_eq hdeclared]
      split
      · exact (boundSet_echoes set _).discard.bind_eq fun _ => equateSets_echoes targets set
      · exact equateSets_echoes targets set

/-- A value that is no cast flows as it is, unless it is an allowed call. -/
theorem flowDirectly_echoes (view : Viewpoint) (targets : VarSet) {core core' : ExprId}
    (hcore : ∀ options,
      Both Eq (u.isAllowedCall options core) (u'.isAllowedCall options core'))
    (h : w.Told e e') :
    Matches (EchoesIn w) Eq
      (do
        if ← u.isAllowedCall (← get).options core then return ()
        equateSets targets (← denote u e view))
      (do
        if ← u'.isAllowedCall (← get).options core' then return ()
        equateSets targets (← denote u' e' view)) := by
  apply Matches.bind_get
  intro s t hst
  rw [hst.options]
  refine Matches.bind_lift (hcore _) fun allowed allowed' ha => ?_
  subst ha
  split
  · exact .pure rfl
  · exact (denote_echoes w h view).bind_eq fun set => equateSets_echoes targets set

/-- A value flows alike, for what stands below its wrappers corresponds. -/
theorem flowInto_echoes (view : Viewpoint) (targets : VarSet) (named : Option DeclId)
    (h : w.Told e e') (hq : w.Seen e e') :
    Matches (EchoesIn w) Eq (flowInto u view targets named e) (flowInto u' view targets named e') := by
  have hunnamed : Matches (EchoesIn w) Eq (flowInto u view targets none e)
      (flowInto u' view targets none e') := by
    refine Matches.bind_lift (w.unparen hq) fun c c' hcore => ?_
    cases hcore with
    | same hc hc' hcc hx =>
      have hdirect := flowDirectly_echoes w view targets
        (fun options => w.isAllowedCall options hcc) h
      rw [hc, hc']
      cases hx with
      | cast ht h hq => exact flowThroughCast_echoes w view targets ht h hq
      | _ => exact hdirect
    | plain hc hc' =>
      have hdirect := flowDirectly_echoes w view targets
        (fun options => .of_eq (hc'.isAllowedCall.trans hc.isAllowedCall.symm)) h
      obtain ⟨x, hc, hx⟩ := hc
      obtain ⟨x', hc', hx'⟩ := hc'
      have hplain : Both (fun x x' => x.IsPlain ∧ x'.IsPlain) (u.expr c) (u'.expr c') := by
        rw [hc, hc']
        exact ⟨hx, hx'⟩
      refine Matches.bind_lift hplain fun x x' hx => ?_
      split
      · exact hx.1.elim
      · split
        · exact hx.2.elim
        · exact hdirect
  cases named with
  | none => exact hunnamed
  -- an allocation is noted first, then the value flows as into a target without a name
  | some target => exact (noteAllocation_echoes w target hq).bind_eq fun _ => hunnamed

theorem needBounds_echoes (view : Viewpoint) (h : w.Told e e') :
    Matches (EchoesIn w) Eq (needBounds u view e) (needBounds u' view e') := by
  refine (denote_echoes w h view).bind_eq fun set => ?_
  refine Matches.forM_eq fun v _ => ?_
  apply Matches.bind_get
  intro s t hst
  have hhead : ((t.arena.pointer? v).bind (·.atoms.head?)) =
      (s.arena.pointer? v).bind (·.atoms.head?) := by
    have hatoms := hst.pointer?_map (g := PointerVariable.atoms) (fun _ => rfl) v
    simpa only [Option.bind_map, Function.comp_def] using congrArg (Option.bind · List.head?) hatoms
  rw [hhead]
  split
  · exact (addConstraint_echoes _).discard
  · exact .pure rfl

/-! ## Calls -/

theorem passArguments_echoes (view : Viewpoint) {args args' : List ExprId}
    (h : List.Forall₂ w.Told args args') (slots : List VarSet) :
    Matches (EchoesIn w) Eq (passArguments u view slots args) (passArguments u' view slots args') := by
  induction h generalizing slots with
  | nil => cases slots <;> exact .pure rfl
  | cons harg _ ih =>
    cases slots with
    | nil =>
      refine (denote_echoes w harg view).bind_eq fun values => ?_
      exact (boundSet_echoes values _).discard.bind_eq fun _ => ih []
    | cons slot slots =>
      refine (denote_echoes w harg view).bind_eq fun values => ?_
      exact (equateSets_echoes slot values).bind_eq fun _ => ih slots

section

variable {callee callee' : ExprId} {args args' : List ExprId}
  (hx : u.expr e = .ok (.call callee args)) (hx' : u'.expr e' = .ok (.call callee' args'))
  (hcallee : w.Told callee callee') (hq : w.Seen callee callee')

include hx hx' hcallee hq

theorem calleeVariables_echoes (view : Viewpoint) :
    Matches (EchoesIn w) Eq (calleeVariables u view e callee)
      (calleeVariables u' view e' callee') := by
  refine Matches.bind_lift (w.namedCallee hx hx' hq) fun target target' h => ?_
  subst h
  cases target with
  | some target =>
    refine Matches.bind_lift (w.decl target) fun d d' hd => ?_
    rw [hd.isDeclarator]
    split
    · exact denoteDecl_echoes w target _
    · exact .unresolved
  | none => exact denote_echoes w hcallee view

/-- The arguments of a call go to the same signature on both sides. -/
theorem followCall_echoes (view : Viewpoint) (hargs : List.Forall₂ w.Told args args') :
    Matches (EchoesIn w) Eq (followCall u view e callee args)
      (followCall u' view e' callee' args') := by
  apply Matches.bind_get
  intro s t hst
  rw [hst.options]
  refine Matches.bind_lift (w.isAllowedCall_call _ hx hx' hq) fun allowed allowed' ha => ?_
  subst ha
  split
  · exact .pure rfl
  · refine (calleeVariables_echoes w hx hx' hcallee hq view).bind_eq fun candidates => ?_
    apply Matches.bind_get
    intro s t hst
    have hlast := congrArg List.getLast?
      (hst.reachableFunctions_map (g := FunctionVariable.params) (fun _ => rfl) candidates.members)
    rw [List.getLast?_map, List.getLast?_map] at hlast
    replace hlast := rel_of_map_eq hlast
    dsimp only
    generalize (candidates.members.filterMap s.arena.reachableFunction?).getLast? = f,
      (candidates.members.filterMap t.arena.reachableFunction?).getLast? = f' at hlast
    cases hlast with
    | none => exact .pure rfl
    | some hparams =>
      dsimp only
      rw [hparams]
      exact passArguments_echoes w view hargs _

end

/-! ## Expressions and statements -/

/-- One case for each kind of node; wrappers do nothing at their own node. -/
theorem followNode_echoes (view : Viewpoint) {x x' : Expr} (hx : u.expr e = .ok x)
    (hx' : u'.expr e' = .ok x') (h : w.Told e e')  (hxx' : x.Rewords w.Told w.Seen x') :
    Matches (EchoesIn w) Eq (followNode u view e x) (followNode u' view e' x') := by
  cases hxx' with
  | subscript hb _ hq =>
    refine Matches.bind_lift (w.isZero hq) fun zero zero' h => ?_
    subst h
    split
    · exact needBounds_echoes w view hb
    · exact .pure rfl
  | binary op hl hr hq =>
    cases op with
    | assign =>
      obtain ⟨hql, hqr⟩ := hq rfl
      refine (denote_echoes w hl view).bind_eq fun targets => ?_
      refine Matches.bind_lift (w.assignedName? hql) fun named named' h => ?_
      subst h
      exact flowInto_echoes w view targets named hr hqr
    | _ => exact .pure rfl
  | call hc hq ha => exact followCall_echoes w hx hx' hc hq view ha
  | stringLiteral value => exact (denote_echoes w h view).discard
  | _ => exact .pure rfl

/-- Expressions are followed alike: a wrapper that only one side has is one look more there. -/
theorem followWithin_echoes (view : Viewpoint) {n n' : Nat} (h : w.Within n e n' e') :
    Matches (EchoesIn w) Eq (followWithin u view n e) (followWithin u' view n' e') := by
  induction n' generalizing n e e' with
  | zero =>
    cases w.step h
    exact .unresolved
  | succ n' ih =>
    cases w.step h with
    | @wrapped _ _ _ _ inner x' hx' hinner h =>
      rw [followWithin, hx']
      obtain rfl | rfl | rfl := Expr.eq_of_wrapped? hinner <;> exact (ih h).then_pure
    | @node n _ _ _ hkey hx =>
      rw [followWithin, followWithin]
      refine Matches.bind_answer hx fun x x' he he' hx => ?_
      have hnode := followNode_echoes w view he he' (w.restart h) (hx.mono fun _ _ _ _ => w.restart)
      exact hnode.bind_eq fun _ => Matches.forM hx.operands fun _ _ => ih

theorem follow_echoes (view : Viewpoint) (h : w.Told e e') :
    Matches (EchoesIn w) Eq (follow u view e) (follow u' view e') := followWithin_echoes w view h

theorem followInitializer_echoes (view : Viewpoint) (var : DeclId) (h : w.Told e e')
    (hq : w.Seen e e') :
    Matches (EchoesIn w) Eq (followInitializer u view var e) (followInitializer u' view var e') :=
  (denoteDecl_echoes w var view).bind_eq fun targets =>
    (flowInto_echoes w view targets (some var) h hq).bind_eq fun _ => follow_echoes w view h

theorem declaredReturns_echoes (func : DeclId) :
    Matches (EchoesIn w) Eq (declaredReturns u func) (declaredReturns u' func) := by
  refine (storedFor_echoes w func).bind_eq fun stored => ?_
  apply Matches.bind_get
  intro s t hst
  have hreturns := hst.functions_map (g := fun f => f.returns.members) (fun _ => rfl) stored.members
  dsimp only
  rw [List.flatMap_def, List.flatMap_def, hreturns]
  exact .pure rfl

theorem followReturn_echoes (func : DeclId) (h : w.Told e e') (hq : w.Seen e e') :
    Matches (EchoesIn w) Eq (followReturn u func e) (followReturn u' func e') :=
  (declaredReturns_echoes w func).bind_eq fun returns =>
    (flowInto_echoes w .body returns none h hq).bind_eq fun _ => follow_echoes w .body h

theorem followStmt_echoes (func : DeclId) {stmt stmt' : Stmt} (h : stmt.Rewords w.Told w.Seen stmt') :
    Matches (EchoesIn w) Eq (followStmt u func stmt) (followStmt u' func stmt') := by
  cases h with
  | expr h => exact follow_echoes w .body h
  | ret h =>
    cases h with
    | none => exact .pure rfl
    | some h => exact followReturn_echoes w func h.1 h.2
  | decl d =>
    refine Matches.bind_lift (w.decl d) fun d₁ d₂ hd => ?_
    have hinit := hd.init?
    generalize d₁.init? = init, d₂.init? = init' at hinit
    cases hinit with
    | none => exact .pure rfl
    | some h => exact followInitializer_echoes w .body d h.1 h.2

theorem countStatement_echoes {x y : Op PUnit} (h : Matches (EchoesIn w) Eq x y) :
    Matches (EchoesIn w) Eq (countStatement x) (countStatement y) := by
  refine h.attempt.bind_eq fun ended => ?_
  split <;> exact .pure rfl

theorem flowStmts_echoes (func : DeclId) {body body' : List Stmt}
    (h : List.Forall₂ (Stmt.Rewords w.Told w.Seen) body body') :
    Matches (EchoesIn w) Eq (flowStmts u func body) (flowStmts u' func body') := by
  induction h with
  | nil => exact .pure rfl
  | cons hstmt _ ih =>
    exact (countStatement_echoes w (followStmt_echoes w func hstmt)).bind_eq fun first =>
      ih.bind_eq fun _ => .pure rfl

theorem flowDecl_echoes (id : DeclId) :
    Matches (EchoesIn w) Eq (flowDecl u id) (flowDecl u' id) := by
  refine Matches.bind_lift (w.decl id) fun d d' hd => ?_
  have hinit := hd.init?
  have hbody := hd.body?
  generalize d.init? = init, d'.init? = init' at hinit
  generalize d.body? = body, d'.body? = body' at hbody
  cases hinit with
  | some h => exact countStatement_echoes w (followInitializer_echoes w .declaration id h.1 h.2)
  | none =>
    cases hbody with
    | some h => exact (flowStmts_echoes w id h).bind_eq fun _ => .pure rfl
    | none => exact .pure rfl

theorem flowDecls_echoes (ids : List DeclId) :
    Matches (EchoesIn w) Eq (flowDecls u ids) (flowDecls u' ids) := by
  induction ids with
  | nil => exact .pure rfl
  | cons id rest ih =>
    exact (flowDecl_echoes w id).bind_eq fun first => ih.bind_eq fun _ => .pure rfl

/-- The values of reworded units flow alike. -/
theorem flow_echoes : Matches (EchoesIn w) Eq (flow u) (flow u') := by
  rw [flow, flow, w.topLevel]
  exact flowDecls_echoes w _

end Session

end CheckedPointers
