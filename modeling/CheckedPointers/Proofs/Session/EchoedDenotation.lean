import CheckedPointers.Proofs.Session.EchoedIndexing

/-!
Denotation in other words. Expressions that correspond denote the same variables, and what is made
on the way is made alike.
-/
namespace CheckedPointers

namespace Session

open Op TranslationUnit

variable {K : ExprId → ExprId → Prop} {visit : Option (Nat × String)} {s t : Session}

/-! ## Signatures -/

theorem Echoes.slotsOf (h : s.Echoes K visit t) (i : Nat) (functions : VarSet) :
    Session.slotsOf t.arena i functions = Session.slotsOf s.arena i functions := by
  have hslot (v : VarId) : ((t.arena.function? v).bind fun f => f.params[i]?) =
      (s.arena.function? v).bind fun f => f.params[i]? := by
    have hparams := h.function?_map (g := FunctionVariable.params) (fun _ => rfl) v
    simpa only [Option.bind_map, Function.comp_def] using congrArg (Option.bind · (·[i]?)) hparams
  simp only [Session.slotsOf, hslot]

theorem Echoes.returnsOf (h : s.Echoes K visit t) (callees : VarSet) :
    Session.returnsOf t.arena callees = Session.returnsOf s.arena callees := by
  have hreturns := h.reachableFunctions_map (g := fun f => f.returns.members) (fun _ => rfl)
    callees.members
  rw [Session.returnsOf, Session.returnsOf, List.flatMap_def, List.flatMap_def, hreturns]

variable {u u' : TranslationUnit} (w : u.Rewording u')

include w

/-- Keys do not depend on spelling, so a signature is on demand on both sides or on neither. -/
theorem implicitPrototype_echoes (func : DeclId) :
    Matches (Echoes K visit) Eq (implicitPrototype u func) (implicitPrototype u' func) := by
  refine (requireOpen_echoes w.id w.file).bind_eq fun _ => ?_
  refine Matches.bind_lift (w.pairingKey func) fun key key' h => ?_
  subst h
  apply Matches.bind_get
  intro s t hst
  rw [hst.implicits]
  cases s.implicits.find? key with
  | some set => exact .pure rfl
  | none =>
    refine Matches.bind_lift (w.definitionFor func) fun definition definition' h => ?_
    subst h
    refine (newFunction_echoes w _).bind_eq fun v => ?_
    refine (updatePairing_echoes _).bind_eq fun _ => ?_
    exact (Matches.modify fun s t hst => { hst with
      implicits := by simp only [hst.implicits] }).bind_eq fun _ => .pure rfl

theorem storedFor_echoes (d : DeclId) :
    Matches (Echoes K visit) Eq (storedFor u d) (storedFor u' d) := by
  apply Matches.bind_get
  intro s t hst
  refine Matches.bind_lift (w.decl d) fun _ _ hd => ?_
  rw [hd.anchor, hst.storedAt]
  exact .pure rfl

theorem storedParam_echoes (func : DeclId) (i : Nat) :
    Matches (Echoes K visit) Eq (storedParam u func i) (storedParam u' func i) := by
  refine Matches.bind_lift (w.decl func) fun d d' hd => ?_
  rw [hd.params]
  cases d.params[i]? with
  | some p => exact storedFor_echoes w p
  | none => exact .pure rfl

theorem denoteFunction_echoes (func : DeclId) :
    Matches (Echoes K visit) Eq (denoteFunction u func) (denoteFunction u' func) := by
  refine Matches.bind_lift (w.prototypeOf func) fun declaration declaration' h => ?_
  subst h
  cases declaration with
  | some declaration => exact storedFor_echoes w declaration
  | none => exact implicitPrototype_echoes w func

/-- A parameter is looked up in declarations that are the same on both sides. -/
theorem denoteParam_echoes (owner : DeclId) (i : Nat) (view : Viewpoint) :
    Matches (Echoes K visit) Eq (denoteParam u owner i view) (denoteParam u' owner i view) := by
  cases view with
  | body =>
    refine Matches.bind_lift (w.definitionFor owner) fun definition definition' h => ?_
    subst h
    cases definition with
    | some definition => exact storedParam_echoes w definition i
    | none => exact Matches.bind_lift (w.decl owner) fun _ _ _ => .unresolved
  | declaration =>
    refine Matches.bind_lift (w.prototypeOf owner) fun declaration declaration' h => ?_
    subst h
    cases declaration with
    | some declaration => exact storedParam_echoes w declaration i
    | none =>
      refine (implicitPrototype_echoes w owner).bind_eq fun functions => ?_
      apply Matches.bind_get
      intro s t hst
      rw [hst.slotsOf]
      exact .pure rfl

/-- A declaration denotes the same, however its unit is worded. -/
theorem denoteDecl_echoes (id : DeclId) (view : Viewpoint) :
    Matches (Echoes K visit) Eq (denoteDecl u id view) (denoteDecl u' id view) := by
  refine (requireOpen_echoes w.id w.file).bind_eq fun _ => ?_
  refine Matches.bind_lift (w.decl id) fun d d' hd => ?_
  apply Matches.bind_get
  intro s t hst
  rw [hst.index, hd.anchor, hd.isFunction, hd.isParam]
  split
  · exact .pure rfl
  · split
    · exact denoteFunction_echoes w id
    · split
      · refine Matches.bind_lift (w.parameterPosition id) fun position position' h => ?_
        subst h
        cases position with
        | some position => exact denoteParam_echoes w _ _ view
        | none => exact .unresolved
      · apply Matches.bind_get
        intro s t hst
        rw [hst.storedAt]
        exact .pure rfl

/-! ## Expressions -/

/-- Remembering a variable for corresponding expressions keeps what is remembered the same. -/
theorem find?_insert_echoes {m m' : OrderedMap ExprId VarId} {e e' : ExprId} (v : VarId)
    (h : ∀ d d', w.Key d d' → m'.find? d' = m.find? d) (he : w.Key e e') {d d' : ExprId}
    (hd : w.Key d d') : (m'.insert e' v).find? d' = (m.insert e v).find? d := by
  rw [OrderedMap.find?_insert, OrderedMap.find?_insert, h d d' hd]
  simp only [w.keys hd he]

/-- A literal that the rewording keeps has its variable on both sides. -/
theorem literalVariable_echoes {e e' : ExprId} (he : w.Key e e') (value : String) :
    Matches (Echoes w.Key visit) Eq (literalVariable u e value) (literalVariable u' e' value) := by
  refine (current_echoes w.id w.file).bind fun o o' ho => ?_
  rw [ho.1.literals e e' he]
  cases o.literals.find? e with
  | some v => exact .pure rfl
  | none =>
    refine freshAtom_echoes.bind_eq fun a => ?_
    refine (addConstraint_echoes _).discard.bind_eq fun _ => ?_
    refine (allocate_echoes rfl).bind_eq fun v => ?_
    refine (current_echoes w.id w.file).bind fun o o' ho => ?_
    refine (setOpen_echoes ?_ ?_).bind_eq fun _ => .pure rfl
    · exact { ho.1 with literals := fun _ _ => find?_insert_echoes w v ho.1.literals he }
    · exact ho.2

theorem unknownCallee_echoes {e e' : ExprId} (he : w.Key e e') :
    Matches (Echoes w.Key visit) Eq (unknownCallee u e) (unknownCallee u' e') := by
  refine (current_echoes w.id w.file).bind fun o o' ho => ?_
  rw [ho.1.unknownCallees e e' he]
  cases o.unknownCallees.find? e with
  | some v => exact .pure rfl
  | none =>
    refine (allocate_echoes rfl).bind_eq fun v => ?_
    refine (current_echoes w.id w.file).bind fun o o' ho => ?_
    refine (setOpen_echoes ?_ ?_).bind_eq fun _ => .pure rfl
    · exact { ho.1 with unknownCallees := fun _ _ => find?_insert_echoes w v ho.1.unknownCallees he }
    · exact ho.2

/-- A call of a named declaration returns the same on both sides. -/
theorem denoteCall_echoes {e e' : ExprId} (he : w.Key e e') (target : DeclId) :
    Matches (Echoes w.Key visit) Eq (denoteCall u e target) (denoteCall u' e' target) := by
  refine Matches.bind_lift (w.decl target) fun d d' hd => ?_
  rw [hd.isDeclarator]
  split
  · exact .unresolved
  · refine (denoteDecl_echoes w target _).bind_eq fun found => ?_
    apply Matches.bind_get
    intro s t hst
    have hlast := congrArg List.getLast?
      (hst.reachableFunctions_map (g := FunctionVariable.returns) (fun _ => rfl) found.members)
    rw [List.getLast?_map, List.getLast?_map] at hlast
    replace hlast := rel_of_map_eq hlast
    dsimp only
    generalize (found.members.filterMap s.arena.reachableFunction?).getLast? = f,
      (found.members.filterMap t.arena.reachableFunction?).getLast? = f' at hlast
    cases hlast with
    | none => exact (unknownCallee_echoes w he).bind_eq fun _ => .pure rfl
    | some hreturns => exact .pure hreturns.symm

/-- Corresponding expressions denote the same. -/
theorem denoteWithin_echoes {n n' : Nat} {e e' : ExprId} (h : w.Within n e n' e')
    (view : Viewpoint) :
    Matches (Echoes w.Key visit) Eq (denoteWithin u n e view) (denoteWithin u' n' e' view) := by
  -- the second expression may be wrapped where the first is not, so its depth decreases alone
  induction n' generalizing n e e' view with
  | zero =>
    cases w.step h
    exact .unresolved
  | succ n' ih =>
    cases w.step h with
    | @wrapped _ _ _ _ inner x' hx' hinner h =>
      rw [denoteWithin, hx']
      obtain rfl | rfl | rfl := Expr.eq_of_wrapped? hinner <;> exact ih h view
    | @node n _ _ _ hkey h =>
      rw [denoteWithin, denoteWithin]
      refine Matches.bind_answer h fun x x' he he' hx => ?_
      cases hx with
      | declRef d => exact denoteDecl_echoes w d view
      | member field h => exact denoteDecl_echoes w field view
      | binary op hl hr _ =>
        refine (ih hl view).bind_eq fun left => ?_
        exact (ih hr view).bind_eq fun right => .pure rfl
      | unary op h =>
        cases op with
        | deref =>
          refine (ih h view).bind_eq fun set => ?_
          apply Matches.bind_get
          intro s t hst
          rw [hst.isFunction]
          split
          · exact .unresolved
          · exact dereference_echoes set
        | _ => exact ih h view
      | subscript hb _ _ => exact (ih hb view).bind_eq fun set => dereference_echoes set
      | call hc hcallee _ =>
        refine Matches.bind_lift (w.namedCallee he he' hcallee) fun target target' h => ?_
        subst h
        cases target with
        | some target => exact denoteCall_echoes w hkey target
        | none =>
          refine (ih hc .declaration).bind_eq fun callees => ?_
          apply Matches.bind_get
          intro s t hst
          rw [hst.returnsOf]
          exact .pure rfl
      | conditional hc ht hf =>
        refine (ih hc view).bind_eq fun first => ?_
        refine (ih ht view).bind_eq fun second => ?_
        exact (ih hf view).bind_eq fun third => .pure rfl
      | stringLiteral value =>
        exact (literalVariable_echoes w hkey value).bind_eq fun v => .pure rfl
      | intLiteral _ | cast _ _ _ | sizeOf _ _ => exact .pure rfl
      | paren h | implicitCast h | bindTemporary h => exact ih h view

theorem denote_echoes {e e' : ExprId} (h : w.Told e e') (view : Viewpoint) :
    Matches (Echoes w.Key visit) Eq (denote u e view) (denote u' e' view) :=
  (requireOpen_echoes w.id w.file).bind_eq fun _ => denoteWithin_echoes w h view

end Session

end CheckedPointers
