import CheckedPointers.Proofs.Source.Forest
import CheckedPointers.Source.Draft
import Mathlib.Data.List.Induction
import Mathlib.Data.List.Nodup

/-!
Units under construction. If only ids that were handed out before are passed to each step, every
step succeeds, and nothing can be wrong with the unit but that an operand is shared.
-/
namespace CheckedPointers

def DeclKind.references : DeclKind → List Reference
  | .var _ _ _ init => init.toList.map .expr
  | .param _ owner _ => owner.toList.map .decl
  | .function _ params _ body =>
    params.map .decl ++ (Stmt.unblocked (body.getD [])).filterMap Stmt.reference?
  | .field .. | .typedef _ | .enumConstant _ => []

theorem Decl.references_eq (d : Decl) : d.references = d.kind.references := by
  cases hkind : d.kind <;>
    simp [Decl.references, Decl.init?, Decl.owner?, Decl.params, Decl.unblocked, Decl.body?,
      Stmt.unblocked, DeclKind.references, hkind]

namespace Draft

def Call.line? : Call → Option Nat
  | .var _ _ _ line | .field _ _ line | .param _ _ line | .typedef _ _ line
  | .enumConstant _ _ line | .function _ _ _ _ _ line | .functionWithoutPrototype _ _ line =>
    some line
  | _ => none

def Call.expr? : Call → Option Expr
  | .expr e => some e
  | _ => none

/-- The ids that are passed to a step, those inside a body among them. -/
def Call.references : Call → List Reference
  | .function _ _ params _ body _ =>
    params.map .decl ++ (Stmt.unblocked (body.getD [])).filterMap Stmt.reference?
  | .makeVariadic d | .markMacro d | .giveInterface d _ => [.decl d]
  | .giveInit d init => [.decl d, .expr init]
  | .expr e => e.target?.toList.map .decl ++ e.operands.map .expr
  | _ => []

def Call.operands (c : Call) : List ExprId := (c.expr?.map Expr.operands).getD []

def Added.reference? : Added → Option Reference
  | decl d => some (.decl d)
  | expr e => some (.expr e)
  | nothing => none

def handedOut (draft : Draft) (calls : List Call) : List Reference :=
  (draft.run calls).2.filterMap fun result => result.toOption.bind Added.reference?

/-- Every id that is passed to a step was handed out by one before it. -/
def PassesOwn (draft : Draft) (calls : List Call) : Prop :=
  ∀ i, ∀ hi : i < calls.length, ∀ r ∈ calls[i].references, r ∈ draft.handedOut (calls.take i)

instance (draft : Draft) (calls : List Call) : Decidable (draft.PassesOwn calls) :=
  inferInstanceAs (Decidable (∀ i, ∀ hi : i < calls.length, ∀ r ∈ calls[i].references,
    r ∈ draft.handedOut (calls.take i)))

def own (func : DeclId) (params : List DeclId) (draft : Draft) : Draft :=
  params.foldl (fun draft p => draft.modifyDecl p (setOwner func)) draft

variable {draft next : Draft} {c : Call} {added : Added} {calls : List Call} {r : Reference}
  {d e : Nat}

/-! ## One step -/

/-- All that a step can do: it adds a declaration that refers to what was passed, it changes one
without moving it, it adds an expression, or it moves to a file. -/
inductive Step (draft : Draft) (c : Call) : Draft → Added → Prop where
  | declares {line : Nat} {decl : Decl} {topLevel params : List DeclId}
      (hline : c.line? = some line) (hexpr : c.expr? = none)
      (hanchor : decl.anchor = draft.nextAnchor line) (hrefs : decl.references = c.references)
      (htop : ∀ d ∈ topLevel, d ∈ draft.unit.topLevel ∨ d = draft.unit.decls.size) :
      Step draft c
        (own draft.unit.decls.size params
          ⟨{ draft.unit with decls := draft.unit.decls.push decl, topLevel }, draft.file⟩)
        (.decl draft.unit.decls.size)
  | changes {d : DeclId} {f : Decl → Decl} (hline : c.line? = none) (hexpr : c.expr? = none)
      (hanchor : ∀ decl, (f decl).anchor = decl.anchor)
      (hrefs : ∀ decl, ∀ r ∈ (f decl).references, r ∈ decl.references ∨ r ∈ c.references) :
      Step draft c (draft.modifyDecl d f) .nothing
  | computes {e : Expr} (hcall : c = .expr e) :
      Step draft c ⟨{ draft.unit with exprs := draft.unit.exprs.push e }, draft.file⟩
        (.expr draft.unit.exprs.size)
  | moves {file : String} (hline : c.line? = none) (hexpr : c.expr? = none) :
      Step draft c { draft with file } .nothing

theorem addInner_step {name : String} {line : Nat} {kind : DeclKind}
    (hline : c.line? = some line) (hexpr : c.expr? = none) (hrefs : kind.references = c.references)
    (h : draft.addInner name line kind = (next, added)) : draft.Step c next added := by
  cases h
  have hstep : draft.Step c (own draft.unit.decls.size [] (draft.pushDecl name line kind)) _ :=
    .declares hline hexpr rfl (Decl.references_eq _ ▸ hrefs) fun _ => .inl
  exact hstep

theorem own_addOuter_step {name : String} {line : Nat} {kind : DeclKind} (params : List DeclId)
    (hline : c.line? = some line) (hexpr : c.expr? = none)
    (hrefs : kind.references = c.references) :
    draft.Step c (own draft.unit.decls.size params (draft.addOuter name line kind).1)
      (.decl draft.unit.decls.size) := by
  refine .declares hline hexpr rfl (Decl.references_eq _ ▸ hrefs) fun d hd => ?_
  exact (List.mem_append.1 hd).imp_right List.mem_singleton.1

theorem addOuter_step {name : String} {line : Nat} {kind : DeclKind}
    (hline : c.line? = some line) (hexpr : c.expr? = none) (hrefs : kind.references = c.references)
    (h : draft.addOuter name line kind = (next, added)) : draft.Step c next added := by
  cases h
  exact own_addOuter_step [] hline hexpr hrefs

theorem addFunction_step {name : String} {ret : CType} {params : List DeclId}
    {isGlobal hasPrototype : Bool} {body : Option (List Stmt)} {line : Nat}
    (hline : c.line? = some line) (hexpr : c.expr? = none)
    (hrefs : ∀ signature,
      (DeclKind.function signature params isGlobal body).references = c.references)
    (h : draft.addFunction name ret params isGlobal hasPrototype body line = .ok (next, added)) :
    draft.Step c next added := by
  unfold addFunction at h
  cases hdecls : params.mapM draft.unit.decl with
  | error e =>
    rw [hdecls] at h
    cases h
  | ok decls =>
    rw [hdecls] at h
    cases h
    exact own_addOuter_step params hline hexpr (hrefs _)

theorem change_step {f : Decl → Decl} (hline : c.line? = none) (hexpr : c.expr? = none)
    (hanchor : ∀ decl, (f decl).anchor = decl.anchor)
    (hrefs : ∀ decl, ∀ r ∈ (f decl).references, r ∈ decl.references ∨ r ∈ c.references)
    (h : draft.change d f = .ok (next, added)) : draft.Step c next added := by
  unfold change at h
  cases hd : draft.unit.decl d with
  | error e =>
    rw [hd] at h
    cases h
  | ok _ =>
    rw [hd] at h
    cases h
    exact .changes hline hexpr hanchor hrefs

/-! Setters leave a declaration where it is, and it refers to what it referred to and to what was
passed. -/

theorem setOwner_anchor (func : DeclId) (decl : Decl) :
    (setOwner func decl).anchor = decl.anchor := by
  unfold setOwner
  split <;> rfl

theorem setOwner_references (func : DeclId) (decl : Decl) :
    ∀ r ∈ (setOwner func decl).references, r ∈ decl.references ∨ r = .decl func := by
  simp only [Decl.references_eq]
  unfold setOwner
  split
  · exact fun r hr => .inr (List.mem_singleton.1 hr)
  · exact fun r hr => .inl hr

theorem setSignature_anchor (f : Signature → Signature) (decl : Decl) :
    (setSignature f decl).anchor = decl.anchor := by
  unfold setSignature
  split <;> rfl

theorem setSignature_references (f : Signature → Signature) (decl : Decl) :
    (setSignature f decl).references = decl.references := by
  simp only [Decl.references_eq]
  unfold setSignature
  split
  · next hkind =>
    rw [hkind]
    rfl
  · rfl

theorem setInitializer_anchor (init : ExprId) (decl : Decl) :
    (setInitializer init decl).anchor = decl.anchor := by
  unfold setInitializer
  split <;> rfl

theorem setInitializer_references (init : ExprId) (decl : Decl) :
    ∀ r ∈ (setInitializer init decl).references, r ∈ decl.references ∨ r = .expr init := by
  simp only [Decl.references_eq]
  unfold setInitializer
  split
  · exact fun r hr => .inr (List.mem_singleton.1 hr)
  · exact fun r hr => .inl hr

theorem setInterface_anchor (text : String) (decl : Decl) :
    (setInterface text decl).anchor = decl.anchor := by
  unfold setInterface
  split <;> rfl

theorem setInterface_references (text : String) (decl : Decl) :
    (setInterface text decl).references = decl.references := by
  simp only [Decl.references_eq]
  unfold setInterface
  split
  all_goals simp only [DeclKind.references, *]

/-- A step that does not fail adds what its kind adds: one case for each. -/
theorem step_cases (h : draft.step c = .ok (next, added)) : draft.Step c next added := by
  cases c with
  | var isGlobal name ty line =>
    cases isGlobal
    · exact addInner_step rfl rfl rfl (Except.ok.inj h)
    · exact addOuter_step rfl rfl rfl (Except.ok.inj h)
  | field name ty line => exact addOuter_step rfl rfl rfl (Except.ok.inj h)
  | param name ty line => exact addInner_step rfl rfl rfl (Except.ok.inj h)
  | typedef name ty line => exact addOuter_step rfl rfl rfl (Except.ok.inj h)
  | enumConstant name value line => exact addOuter_step rfl rfl rfl (Except.ok.inj h)
  | function name ret params isGlobal body line => exact addFunction_step rfl rfl (fun _ => rfl) h
  | functionWithoutPrototype name ret line =>
    exact addFunction_step rfl rfl (fun _ => by simp [DeclKind.references, Stmt.unblocked,
      Call.references]) h
  | moveTo file =>
    cases h
    exact .moves rfl rfl
  | moveBack =>
    cases h
    exact .moves rfl rfl
  | makeVariadic func =>
    refine change_step rfl rfl (setSignature_anchor _) (fun decl r hr => .inl ?_) h
    rwa [setSignature_references] at hr
  | markMacro d =>
    exact change_step (f := ({ · with inMacro := true })) rfl rfl (fun _ => rfl)
      (fun _ _ => .inl) h
  | giveInit d init =>
    refine change_step rfl rfl (setInitializer_anchor init) (fun decl r hr => ?_) h
    refine (setInitializer_references init decl r hr).imp_right ?_
    rintro rfl
    exact List.mem_cons_of_mem _ List.mem_cons_self
  | giveInterface d text =>
    refine change_step rfl rfl (setInterface_anchor text) (fun decl r hr => .inl ?_) h
    rwa [setInterface_references] at hr
  | expr e =>
    cases h
    exact .computes rfl

/-- A step to which only ids are passed that name something succeeds. -/
theorem exists_step (h : ∀ r ∈ c.references, draft.unit.Refers r) :
    ∃ result, draft.step c = .ok result := by
  have hchange : ∀ d f, draft.unit.Refers (.decl d) →
      ∃ result, draft.change d f = .ok result := by
    intro d f hd
    obtain ⟨decl, hdecl, -⟩ := TranslationUnit.decl_gives hd
    exact ⟨_, by rw [change, hdecl]; rfl⟩
  have hadd : ∀ name ret params isGlobal hasPrototype body line,
      (∀ d ∈ params, draft.unit.Refers (.decl d)) → ∃ result,
        draft.addFunction name ret params isGlobal hasPrototype body line = .ok result := by
    intro name ret params isGlobal hasPrototype body line hparams
    obtain ⟨decls, hdecls, -⟩ :=
      gives_mapM fun d hd => TranslationUnit.decl_gives (hparams d hd)
    exact ⟨_, by rw [addFunction, hdecls]; rfl⟩
  cases c with
  | var isGlobal => cases isGlobal <;> exact ⟨_, rfl⟩
  | function name ret params isGlobal body line =>
    refine hadd _ _ _ _ _ _ _ fun d hd => h _ (List.mem_append_left _ ?_)
    exact List.mem_map_of_mem hd
  | functionWithoutPrototype =>
    exact hadd _ _ _ _ _ _ _ fun d hd => absurd hd List.not_mem_nil
  | makeVariadic d => exact hchange d _ (h _ List.mem_cons_self)
  | markMacro d => exact hchange d _ (h _ List.mem_cons_self)
  | giveInit d => exact hchange d _ (h _ List.mem_cons_self)
  | giveInterface d => exact hchange d _ (h _ List.mem_cons_self)
  | _ => exact ⟨_, rfl⟩

/-! ## What a unit under construction keeps -/

structure Sound (draft : Draft) : Prop where
  topLevel : ∀ d ∈ draft.unit.topLevel, draft.unit.Refers (.decl d)
  decls : ∀ decl ∈ draft.unit.decls, ∀ r ∈ decl.references, draft.unit.Refers r
  targets : ∀ e ∈ draft.unit.exprs, ∀ d, e.target? = some d → draft.unit.Refers (.decl d)
  precede : ∀ e i o, draft.unit.Uses e i o → o < e

theorem Sound.new (id : Nat) (file : String) : Sound (new id file) where
  topLevel _ h := absurd h List.not_mem_nil
  decls _ h := absurd h (Array.not_mem_empty _)
  targets _ h := absurd h (Array.not_mem_empty _)
  precede _ _ _ h := by
    obtain ⟨x, hx, -⟩ := h
    cases hx

structure Grows (draft next : Draft) : Prop where
  decls : draft.unit.decls.size ≤ next.unit.decls.size
  exprs : draft.unit.exprs.size ≤ next.unit.exprs.size

theorem Grows.refers (h : draft.Grows next) (hr : draft.unit.Refers r) : next.unit.Refers r := by
  cases r with
  | decl d => exact Nat.lt_of_lt_of_le hr h.decls
  | expr e => exact Nat.lt_of_lt_of_le hr h.exprs

theorem grows_modifyDecl (draft : Draft) (d : DeclId) (f : Decl → Decl) :
    draft.Grows (draft.modifyDecl d f) :=
  ⟨Nat.le_of_eq (Array.size_modify ..).symm, Nat.le_refl _⟩

theorem grows_own (func : DeclId) (params : List DeclId) (draft : Draft) :
    draft.Grows (own func params draft) := by
  induction params generalizing draft with
  | nil => exact ⟨Nat.le_refl _, Nat.le_refl _⟩
  | cons p rest ih =>
    have hfirst := grows_modifyDecl draft p (setOwner func)
    have hrest := ih (draft.modifyDecl p (setOwner func))
    exact ⟨Nat.le_trans hfirst.decls hrest.decls, Nat.le_trans hfirst.exprs hrest.exprs⟩

theorem Step.grows (h : draft.Step c next added) : draft.Grows next := by
  cases h with
  | declares =>
    refine ⟨Nat.le_trans ?_ (grows_own _ _ _).decls, Nat.le_trans ?_ (grows_own _ _ _).exprs⟩
    · simp
    · exact Nat.le_refl _
  | changes => exact grows_modifyDecl draft _ _
  | computes => exact ⟨Nat.le_refl _, by simp⟩
  | moves => exact ⟨Nat.le_refl _, Nat.le_refl _⟩

/-- What a step hands out names something. -/
theorem Step.refers (h : draft.Step c next added) (hr : added.reference? = some r) :
    next.unit.Refers r := by
  cases h with
  | declares =>
    obtain rfl := Option.some.inj hr
    refine (grows_own _ _ _).refers ?_
    simp [TranslationUnit.Refers]
  | changes => cases hr
  | computes =>
    obtain rfl := Option.some.inj hr
    simp [TranslationUnit.Refers]
  | moves => cases hr

/-- A declaration may come to refer to what is there. -/
theorem Sound.modifyDecl {f : Decl → Decl} (h : draft.Sound)
    (hf : ∀ decl, ∀ r ∈ (f decl).references, r ∈ decl.references ∨ draft.unit.Refers r) :
    (draft.modifyDecl d f).Sound := by
  have hgrows := grows_modifyDecl draft d f
  refine ⟨fun d hd => hgrows.refers (h.topLevel d hd), fun decl hdecl r hr => ?_,
    fun e he d hd => hgrows.refers (h.targets e he d hd), h.precede⟩
  obtain ⟨i, hi⟩ := Array.mem_iff_getElem?.1 hdecl
  rw [Draft.modifyDecl, Array.getElem?_modify] at hi
  split at hi
  · obtain ⟨old, hold, rfl⟩ := Option.map_eq_some_iff.1 hi
    rcases hf old r hr with hr | hr
    · exact hgrows.refers (h.decls old (Array.mem_of_getElem? hold) r hr)
    · exact hgrows.refers hr
  · exact hgrows.refers (h.decls decl (Array.mem_of_getElem? hi) r hr)

theorem Sound.own {func : DeclId} (h : draft.Sound) (hfunc : draft.unit.Refers (.decl func))
    (params : List DeclId) : (own func params draft).Sound := by
  induction params generalizing draft with
  | nil => exact h
  | cons p rest ih =>
    refine ih (h.modifyDecl fun decl r hr => ?_) ((grows_modifyDecl draft p _).refers hfunc)
    refine (setOwner_references func decl r hr).imp_right ?_
    rintro rfl
    exact hfunc

/-- A new expression uses operands that are there, so they precede it. -/
theorem Sound.pushExpr {x : Expr} (h : draft.Sound)
    (htarget : ∀ d, x.target? = some d → draft.unit.Refers (.decl d))
    (hoperands : ∀ o ∈ x.operands, draft.unit.Refers (.expr o)) :
    Sound ⟨{ draft.unit with exprs := draft.unit.exprs.push x }, draft.file⟩ := by
  have hgrows : draft.Grows ⟨{ draft.unit with exprs := draft.unit.exprs.push x }, draft.file⟩ :=
    ⟨Nat.le_refl _, by simp⟩
  refine ⟨h.topLevel, fun decl hdecl r hr => hgrows.refers (h.decls decl hdecl r hr), ?_, ?_⟩
  · intro e he d hd
    rcases Array.mem_push.1 he with he | rfl
    · exact h.targets e he d hd
    · exact htarget d hd
  · rintro e i o ⟨y, hy, ho⟩
    rw [Array.getElem?_push] at hy
    split at hy
    · next heq =>
      obtain rfl := Option.some.inj hy
      exact heq ▸ hoperands o (List.mem_of_getElem? ho)
    · exact h.precede e i o ⟨y, hy, ho⟩

/-- Ids name something after a step, if it was passed ids that did. -/
theorem Sound.step (h : draft.Sound) (hown : ∀ r ∈ c.references, draft.unit.Refers r)
    (hstep : draft.Step c next added) : next.Sound := by
  cases hstep with
  | @declares line decl topLevel params _ _ _ hrefs htop =>
    let pushed : Draft :=
      ⟨{ draft.unit with decls := draft.unit.decls.push decl, topLevel }, draft.file⟩
    have hgrows : draft.Grows pushed := ⟨by simp [pushed], Nat.le_refl _⟩
    have hnew : pushed.unit.Refers (.decl draft.unit.decls.size) := by
      simp [pushed, TranslationUnit.Refers]
    have hpushed : pushed.Sound := by
      refine ⟨fun d hd => ?_, fun decl' hdecl r hr => ?_, ?_, h.precede⟩
      · rcases htop d hd with hd | rfl
        · exact hgrows.refers (h.topLevel d hd)
        · exact hnew
      · rcases Array.mem_push.1 hdecl with hdecl | rfl
        · exact hgrows.refers (h.decls decl' hdecl r hr)
        · exact hgrows.refers (hown r (hrefs ▸ hr))
      · exact fun e he d hd => hgrows.refers (h.targets e he d hd)
    exact hpushed.own hnew params
  | changes _ _ _ hrefs =>
    exact h.modifyDecl fun decl r hr => (hrefs decl r hr).imp_right (hown r)
  | @computes x hcall =>
    subst hcall
    refine h.pushExpr (fun d hd => hown _ ?_) fun o ho => hown _ ?_
    · exact List.mem_append_left _ (List.mem_map_of_mem (Option.mem_toList.2 hd))
    · exact List.mem_append_right _ (List.mem_map_of_mem ho)
  | moves => exact ⟨h.topLevel, h.decls, h.targets, h.precede⟩

/-! ## Runs -/

/-- A step that is made hands its unit on to the steps after it. -/
theorem run_cons_ok (h : draft.step c = .ok (next, added)) :
    draft.run (c :: calls) = ((next.run calls).1, .ok added :: (next.run calls).2) := by
  simp only [run, h]

/-- A step that fails is left out. -/
theorem run_cons_error {fault : Fault} (h : draft.step c = .error fault) :
    draft.run (c :: calls) = ((draft.run calls).1, .error fault :: (draft.run calls).2) := by
  simp only [run, h]

/-- A run can be cut in two at any step. -/
theorem run_append (draft : Draft) (calls calls' : List Call) :
    draft.run (calls ++ calls') = (((draft.run calls).1.run calls').1,
      (draft.run calls).2 ++ ((draft.run calls).1.run calls').2) := by
  induction calls generalizing draft with
  | nil => rfl
  | cons c rest ih =>
    rw [List.cons_append]
    cases hc : draft.step c with
    | ok result =>
      obtain ⟨next, added⟩ := result
      rw [run_cons_ok hc, run_cons_ok hc, ih]
      rfl
    | error fault =>
      rw [run_cons_error hc, run_cons_error hc, ih]
      rfl

/-- What every step keeps every run keeps. -/
theorem run_keeps {P : Draft → Prop}
    (hstep : ∀ draft c next added, Step draft c next added → P draft → P next) (h : P draft)
    (calls : List Call) : P (draft.run calls).1 := by
  induction calls generalizing draft with
  | nil => exact h
  | cons c rest ih =>
    cases hc : draft.step c with
    | ok result =>
      rw [run_cons_ok hc]
      exact ih (hstep draft c _ _ (step_cases hc) h)
    | error fault =>
      rw [run_cons_error hc]
      exact ih h

theorem exprs_own (func : DeclId) (params : List DeclId) (draft : Draft) :
    (own func params draft).unit.exprs = draft.unit.exprs := by
  induction params generalizing draft with
  | nil => rfl
  | cons p rest ih => exact ih (draft.modifyDecl p (setOwner func))

theorem Step.exprs (h : draft.Step c next added) :
    next.unit.exprs.toList = draft.unit.exprs.toList ++ c.expr?.toList := by
  cases h with
  | declares _ hexpr => simp [exprs_own, hexpr]
  | changes _ hexpr => simp [Draft.modifyDecl, hexpr]
  | computes hcall => simp [hcall, Call.expr?]
  | moves _ hexpr => simp [hexpr]

/-- The steps of a run add the expressions of the unit and no others. -/
theorem exprs_run (draft : Draft) (calls : List Call) :
    (draft.run calls).1.unit.exprs.toList =
      draft.unit.exprs.toList ++ calls.filterMap Call.expr? := by
  induction calls generalizing draft with
  | nil => simp [run]
  | cons c rest ih =>
    cases hc : draft.step c with
    | ok result =>
      rw [run_cons_ok hc, ih, (step_cases hc).exprs, List.append_assoc]
      cases hx : c.expr? <;> simp [hx]
    | error fault =>
      have hx : c.expr? = none := by
        cases c with
        | expr e => cases hc
        | _ => rfl
      rw [run_cons_error hc, ih, List.filterMap_cons, hx]

/-- The last step is passed ids of the steps before it, and these of theirs. -/
theorem PassesOwn.of_concat (h : draft.PassesOwn (calls ++ [c])) :
    draft.PassesOwn calls ∧ ∀ r ∈ c.references, r ∈ draft.handedOut calls := by
  refine ⟨fun i hi => ?_, ?_⟩
  · have hown := h i (by simp; omega)
    rwa [List.getElem_append_left hi, List.take_append_of_le_length (Nat.le_of_lt hi)] at hown
  · have hown := h calls.length (by simp)
    rwa [List.getElem_concat_length rfl, List.take_left] at hown

/-- Ids that were handed out before name something all along, so no step fails. -/
theorem PassesOwn.run_sound (h : draft.PassesOwn calls) (hsound : draft.Sound) :
    (draft.run calls).1.Sound ∧
      (∀ r ∈ draft.handedOut calls, (draft.run calls).1.unit.Refers r) ∧
      ∀ result ∈ (draft.run calls).2, ∃ added, result = .ok added := by
  -- from the end, since the last step may be passed the ids of all steps before it
  induction calls using List.reverseRecOn with
  | nil =>
    exact ⟨hsound, fun r hr => absurd hr List.not_mem_nil,
      fun result hresult => absurd hresult List.not_mem_nil⟩
  | append_singleton calls c ih =>
    obtain ⟨hbefore, hpassed⟩ := h.of_concat
    obtain ⟨hmid, hgiven, hresults⟩ := ih hbefore
    have hown : ∀ r ∈ c.references, (draft.run calls).1.unit.Refers r := fun r hr =>
      hgiven r (hpassed r hr)
    obtain ⟨⟨next, added⟩, hc⟩ := exists_step hown
    have hstep := step_cases hc
    have hrun : draft.run (calls ++ [c]) = (next, (draft.run calls).2 ++ [.ok added]) := by
      rw [run_append, run_cons_ok hc]
      rfl
    have hout : draft.handedOut (calls ++ [c]) =
        draft.handedOut calls ++ added.reference?.toList := by
      rw [handedOut, hrun, List.filterMap_append, ← handedOut]
      cases hr : added.reference? <;> simp [Except.toOption, hr]
    rw [hrun, hout]
    refine ⟨hmid.step hown hstep, fun r hr => ?_, fun result hresult => ?_⟩
    · rcases List.mem_append.1 hr with hr | hr
      · exact hstep.grows.refers (hgiven r hr)
      · exact hstep.refers (Option.mem_toList.1 hr)
    · rcases List.mem_append.1 hresult with hresult | hresult
      · exact hresults result hresult
      · exact ⟨added, List.mem_singleton.1 hresult⟩

/-! ## The finished unit -/

theorem Sound.refers (h : draft.Sound) (hr : draft.unit.Mentions r) : draft.unit.Refers r := by
  refine TranslationUnit.refers_of_mentions h.topLevel h.decls h.targets (fun x hx o ho => ?_) hr
  obtain ⟨e, he⟩ := Array.mem_iff_getElem?.1 hx
  obtain ⟨i, hi⟩ := List.mem_iff_getElem?.1 ho
  exact Nat.lt_trans (h.precede e i o ⟨x, he, hi⟩) (Array.getElem?_eq_some_iff.1 he).1

end Draft

/-- No operand is used twice if and only if all operands in a row are different. -/
theorem TranslationUnit.nodup_operands_iff (u : TranslationUnit) :
    (u.exprs.toList.flatMap Expr.operands).Nodup ↔
      ∀ e i e' j o, u.Uses e i o → u.Uses e' j o → e = e' ∧ i = j := by
  have huse : ∀ {e i o}, u.Uses e i o ↔ ∃ x, u.exprs.toList[e]? = some x ∧
      x.operands[i]? = some o := by
    intro e i o
    simp [Uses]
  simp only [huse]
  -- two uses of one operand are in different expressions or at different places in one
  rw [List.nodup_flatMap, List.pairwise_iff_getElem]
  constructor
  · rintro ⟨hnodup, hdisjoint⟩ e i e' j o ⟨x, hx, hi⟩ ⟨x', hx', hj⟩
    obtain ⟨he, rfl⟩ := List.getElem?_eq_some_iff.1 hx
    obtain ⟨he', rfl⟩ := List.getElem?_eq_some_iff.1 hx'
    rcases Nat.lt_trichotomy e e' with hlt | rfl | hlt
    · exact (hdisjoint e e' he he' hlt (List.mem_of_getElem? hi) (List.mem_of_getElem? hj)).elim
    · have hlt := (List.getElem?_eq_some_iff.1 hi).1
      exact ⟨rfl, (List.getElem?_inj hlt (hnodup _ (List.getElem_mem he))).1 (hi.trans hj.symm)⟩
    · exact (hdisjoint e' e he' he hlt (List.mem_of_getElem? hj) (List.mem_of_getElem? hi)).elim
  · intro honce
    refine ⟨fun x hx => ?_, fun e e' he he' hlt o ho ho' => ?_⟩
    · obtain ⟨e, he⟩ := List.mem_iff_getElem?.1 hx
      refine List.nodup_iff_injective_get.2 fun i j hij => Fin.ext ?_
      have hi : x.operands[i.1]? = some (x.operands.get i) := List.getElem?_eq_getElem i.2
      have hj : x.operands[j.1]? = some (x.operands.get i) := hij ▸ List.getElem?_eq_getElem j.2
      exact (honce e i e j _ ⟨x, he, hi⟩ ⟨x, he, hj⟩).2
    · obtain ⟨i, hi⟩ := List.mem_iff_getElem?.1 ho
      obtain ⟨j, hj⟩ := List.mem_iff_getElem?.1 ho'
      have heq := (honce e i e' j o ⟨_, List.getElem?_eq_getElem he, hi⟩
        ⟨_, List.getElem?_eq_getElem he', hj⟩).1
      exact absurd heq (Nat.ne_of_lt hlt)

namespace Draft

variable {calls : List Call}

/-- The operands that are passed are those of the unit. -/
theorem operands_run (id : Nat) (file : String) (calls : List Call) :
    ((new id file).run calls).1.unit.exprs.toList.flatMap Expr.operands =
      calls.flatMap Call.operands := by
  rw [exprs_run]
  induction calls with
  | nil => rfl
  | cons c rest ih =>
    rw [List.flatMap_cons, ← ih]
    cases hx : c.expr? <;> simp [new, Call.operands, hx]

/-- If only ids that were handed out before are passed to the steps, they all succeed, and the unit
is closed unless some expression was passed as an operand twice, which is then what the check
reports. -/
theorem run_wellFormed (id : Nat) (file : String) (calls : List Call)
    (h : (new id file).PassesOwn calls) :
    (∀ result ∈ ((new id file).run calls).2, ∃ added, result = .ok added) ∧
      (((new id file).run calls).1.unit.checkClosed = .ok () ∨
        ∃ e, ((new id file).run calls).1.unit.checkClosed = .error (.sharedExpr e)) ∧
      (((new id file).run calls).1.unit.checkClosed = .ok () ↔
        (calls.flatMap Call.operands).Nodup) := by
  obtain ⟨hsound, -, hresults⟩ := h.run_sound (.new id file)
  obtain ⟨hclosed, hdefect⟩ :=
    TranslationUnit.checkClosed_decides ((new id file).run calls).1.unit
  refine ⟨hresults, ?_, ?_⟩
  · cases hcheck : ((new id file).run calls).1.unit.checkClosed with
    | ok _ => exact .inl rfl
    | error defect =>
      have hhas := hdefect defect hcheck
      cases defect with
      | danglingDecl d => exact absurd (hsound.refers hhas.1) (Nat.not_lt.2 hhas.2)
      | danglingExpr e => exact absurd (hsound.refers hhas.1) (Nat.not_lt.2 hhas.2)
      | cyclicExpr e =>
        obtain ⟨i, o, huse, hle⟩ := hhas
        exact absurd (hsound.precede e i o huse) (Nat.not_lt.2 hle)
      | sharedExpr e => exact .inr ⟨e, rfl⟩
  · rw [← operands_run id file calls, TranslationUnit.nodup_operands_iff, hclosed]
    exact ⟨fun hu => hu.once, fun honce => ⟨fun _ => hsound.refers, hsound.precede, honce⟩⟩

/-- A function that dereferences its parameter in a block of its body, and a variable that has the
same expression as its initializer. -/
def dereferencing : List Call :=
  [.param "p" (.pointer .int) 1, .expr (.declRef 0), .expr (.unary .deref 0),
    .function "f" .int [0] true (some [.block [.expr 1]]) 1, .var true "g" .int 2, .giveInit 2 1]

/-- The unit is closed. It is not any more when the dereference is added to itself. -/
theorem run_wellFormed_dereferencing :
    (new 0 "a.c").PassesOwn dereferencing ∧
      ((new 0 "a.c").run dereferencing).1.unit.checkClosed = .ok () ∧
      ∃ e, ((new 0 "a.c").run (dereferencing ++ [.expr (.binary .add 1 1)])).1.unit.checkClosed =
        .error (.sharedExpr e) := by
  have hown : (new 0 "a.c").PassesOwn dereferencing := by decide +kernel
  have hown' : (new 0 "a.c").PassesOwn (dereferencing ++ [.expr (.binary .add 1 1)]) := by
    decide +kernel
  obtain ⟨-, -, hclosed⟩ := run_wellFormed 0 "a.c" dereferencing hown
  obtain ⟨-, hone, hshared⟩ := run_wellFormed 0 "a.c" _ hown'
  refine ⟨hown, hclosed.2 (by decide), hone.resolve_left fun hok => ?_⟩
  exact absurd (hshared.1 hok) (by decide)

end Draft

end CheckedPointers
