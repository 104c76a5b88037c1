import CheckedPointers.Proofs.Source.Closed
import Mathlib.Data.List.Perm.Basic

/-!
Units that differ in the order of the statements inside of bodies. Local declarations keep their
order; whatever else a body consists of may come in any. All questions about a unit have the same
answers in its skeleton, which keeps nothing of a body but the declarations.
-/
namespace CheckedPointers

namespace Stmt

def decl? : Stmt → Option DeclId
  | decl d => some d
  | _ => none

/-- Two bodies have the same statements, and the same declarations in the same order. -/
structure Reorders (body body' : List Stmt) : Prop where
  statements : (unblocked body).Perm (unblocked body')
  decls : (unblocked body).filterMap decl? = (unblocked body').filterMap decl?

variable {a b : List Stmt}

theorem Reorders.refl (a : List Stmt) : Reorders a a := ⟨.refl _, rfl⟩

theorem Reorders.symm (h : Reorders a b) : Reorders b a := ⟨h.statements.symm, h.decls.symm⟩

def skeleton (body : List Stmt) : List Stmt := ((unblocked body).filterMap decl?).map decl

theorem unblocked_map_decl (ds : List DeclId) : unblocked (ds.map decl) = ds.map decl := by
  induction ds with
  | nil => simp [unblocked]
  | cons d rest ih => simp [unblocked, ih]

@[simp] theorem decls_skeleton (body : List Stmt) :
    (unblocked (skeleton body)).filterMap decl? = (unblocked body).filterMap decl? := by
  rw [skeleton, unblocked_map_decl, List.filterMap_map]
  exact List.filterMap_some

theorem Reorders.skeleton_eq (h : Reorders a b) : skeleton a = skeleton b := by
  rw [skeleton, skeleton, h.decls]

end Stmt

/-! ## Skeletons -/

namespace Decl

/-- A declaration without the statements of its body. -/
def skeleton (d : Decl) : Decl :=
  match d.kind with
  | .function signature params isGlobal body =>
    { d with kind := .function signature params isGlobal (body.map Stmt.skeleton) }
  | _ => d

variable (d : Decl)

@[simp] theorem name_skeleton : d.skeleton.name = d.name := by
  unfold skeleton
  split <;> rfl

@[simp] theorem anchor_skeleton : d.skeleton.anchor = d.anchor := by
  unfold skeleton
  split <;> rfl

@[simp] theorem inMacro_skeleton : d.skeleton.inMacro = d.inMacro := by
  unfold skeleton
  split <;> rfl

@[simp] theorem ty?_skeleton : d.skeleton.ty? = d.ty? := by
  simp only [skeleton, ty?]
  cases h : d.kind <;> simp [h]

@[simp] theorem itype?_skeleton : d.skeleton.itype? = d.itype? := by
  simp only [skeleton, itype?]
  cases h : d.kind <;> simp [h]

@[simp] theorem isDeclarator_skeleton : d.skeleton.isDeclarator = d.isDeclarator := by
  simp only [skeleton, isDeclarator]
  cases h : d.kind <;> simp [h]

@[simp] theorem isFunction_skeleton : d.skeleton.isFunction = d.isFunction := by
  simp only [skeleton, isFunction]
  cases h : d.kind <;> simp [h]

@[simp] theorem isParam_skeleton : d.skeleton.isParam = d.isParam := by
  simp only [skeleton, isParam]
  cases h : d.kind <;> simp [h]

@[simp] theorem body?_skeleton : d.skeleton.body? = d.body?.map Stmt.skeleton := by
  simp only [skeleton, body?]
  cases h : d.kind <;> simp [h]

@[simp] theorem hasBody_skeleton : d.skeleton.hasBody = d.hasBody := by
  simp [hasBody]

@[simp] theorem isGlobalFunction_skeleton : d.skeleton.isGlobalFunction = d.isGlobalFunction := by
  simp only [skeleton, isGlobalFunction]
  cases h : d.kind <;> simp [h]

@[simp] theorem params_skeleton : d.skeleton.params = d.params := by
  simp only [skeleton, params]
  cases h : d.kind <;> simp [h]

@[simp] theorem owner?_skeleton : d.skeleton.owner? = d.owner? := by
  simp only [skeleton, owner?]
  cases h : d.kind <;> simp [h]

@[simp] theorem init?_skeleton : d.skeleton.init? = d.init? := by
  simp only [skeleton, init?]
  cases h : d.kind <;> simp [h]

@[simp] theorem isRewritable_skeleton : d.skeleton.isRewritable = d.isRewritable := by
  simp [isRewritable]

@[simp] theorem key_skeleton : d.skeleton.key = d.key := by
  simp [key]

/-- The declarations of the body stay. -/
theorem decls_unblocked_skeleton {local? : Stmt → Option DeclId}
    (h : ∀ st, local? st = st.decl?) :
    d.skeleton.unblocked.filterMap local? = d.unblocked.filterMap local? := by
  obtain rfl : local? = Stmt.decl? := funext h
  rw [unblocked, body?_skeleton, unblocked]
  cases d.body? <;> simp

end Decl

namespace TranslationUnit

def skeleton (u : TranslationUnit) : TranslationUnit := { u with decls := u.decls.map Decl.skeleton }

variable (u : TranslationUnit)

@[simp] theorem decl_skeleton (id : DeclId) :
    u.skeleton.decl id = (u.decl id).map Decl.skeleton := by
  simp only [decl, skeleton, Array.getElem?_map]
  cases u.decls[id]? <;> rfl

theorem map_bind {α β γ : Type} (x : Except Fault α) (g : α → β) (f : β → Except Fault γ) :
    x.map g >>= f = x >>= fun a => f (g a) := by
  cases x <;> rfl

@[simp] theorem findFunction?_skeleton (name : String) {p : Decl → Bool}
    (hp : ∀ d : Decl, p d.skeleton = p d) :
    u.skeleton.findFunction? name p = u.findFunction? name p := by
  simp [findFunction?, skeleton, Function.comp_def, hp]

@[simp] theorem prototypeOf_skeleton (func : DeclId) :
    u.skeleton.prototypeOf func = u.prototypeOf func := by
  simp only [prototypeOf, decl_skeleton, map_bind, Decl.name_skeleton]
  simp

@[simp] theorem definitionFor_skeleton (func : DeclId) :
    u.skeleton.definitionFor func = u.definitionFor func := by
  simp only [definitionFor, decl_skeleton, map_bind, Decl.name_skeleton]
  simp

@[simp] theorem parameterPosition_skeleton (param : DeclId) :
    u.skeleton.parameterPosition param = u.parameterPosition param := by
  simp only [parameterPosition, decl_skeleton, map_bind, Decl.owner?_skeleton]
  congr 1
  funext d
  cases d.owner? with
  | none => rfl
  | some owner =>
    simp only [skeleton, Array.getElem?_map]
    cases u.decls[owner]? <;> simp

@[simp] theorem keyOf_skeleton (func : DeclId) : u.skeleton.keyOf func = u.keyOf func := by
  simp only [keyOf, decl_skeleton, map_bind, Decl.key_skeleton]

@[simp] theorem pairingKey_skeleton (func : DeclId) :
    u.skeleton.pairingKey func = u.pairingKey func := by
  simp [pairingKey]

@[simp] theorem declarators_skeleton : u.skeleton.declarators = u.declarators := by
  unfold declarators
  congr 2
  funext id
  rw [decl_skeleton, map_bind]
  congr 1
  funext d
  rw [Decl.decls_unblocked_skeleton d fun st => by cases st <;> rfl]

end TranslationUnit

/-! ## Reordering -/

inductive Decl.Reorders : Decl → Decl → Prop where
  | refl (d : Decl) : Reorders d d
  | body (d : Decl) {signature : Signature} {params : List DeclId} {isGlobal : Bool}
      {body body' : List Stmt} (h : Stmt.Reorders body body') :
      Reorders { d with kind := .function signature params isGlobal (some body) }
        { d with kind := .function signature params isGlobal (some body') }

structure TranslationUnit.Reorders (u u' : TranslationUnit) : Prop where
  id : u'.id = u.id
  file : u'.file = u.file
  exprs : u'.exprs = u.exprs
  topLevel : u'.topLevel = u.topLevel
  decls : List.Forall₂ Decl.Reorders u.decls.toList u'.decls.toList

theorem Decl.Reorders.skeleton_eq {d d' : Decl} (h : d.Reorders d') : d.skeleton = d'.skeleton := by
  cases h with
  | refl => rfl
  | body d h => simp only [skeleton, Option.map_some, h.skeleton_eq]

theorem Decl.Reorders.symm {d d' : Decl} (h : d.Reorders d') : d'.Reorders d := by
  cases h with
  | refl => exact .refl d
  | body d h => exact .body d h.symm

namespace TranslationUnit

variable {u u' : TranslationUnit}

theorem Reorders.refl (u : TranslationUnit) : u.Reorders u :=
  ⟨rfl, rfl, rfl, rfl, List.forall₂_same.2 fun d _ => .refl d⟩

theorem Reorders.symm (h : u.Reorders u') : u'.Reorders u where
  id := h.id.symm
  file := h.file.symm
  exprs := h.exprs.symm
  topLevel := h.topLevel.symm
  decls := (List.Forall₂.flip h.decls).imp fun _ _ hd => hd.symm

/-- The order of statements is all that skeletons do not show. -/
theorem Reorders.skeleton_eq (h : u.Reorders u') : u.skeleton = u'.skeleton := by
  have hdecls : u.decls.map Decl.skeleton = u'.decls.map Decl.skeleton := by
    apply Array.toList_inj.1
    rw [Array.toList_map, Array.toList_map, ← List.forall₂_eq_eq_eq]
    simpa using h.decls.imp fun _ _ hd => hd.skeleton_eq
  obtain ⟨id, file, decls, exprs, topLevel⟩ := u
  obtain ⟨id', file', decls', exprs', topLevel'⟩ := u'
  obtain ⟨rfl, rfl, rfl, rfl, -⟩ := h
  simp only [skeleton, mk.injEq, true_and, and_true]
  exact hdecls

/-- What a unit shares with its skeleton is the same in both. -/
theorem Reorders.congr (h : u.Reorders u') {α : Type} {f : TranslationUnit → α}
    (hf : ∀ u : TranslationUnit, f u.skeleton = f u) : f u' = f u := by
  rw [← hf u, ← hf u', h.skeleton_eq]

/-- The same declarations are there, with the same statements in their bodies. -/
theorem Reorders.decl (h : u.Reorders u') {id : DeclId} {d : Decl} (hd : u.decl id = .ok d) :
    ∃ d', u'.decl id = .ok d' ∧ d.Reorders d' := by
  have hlen : u.decls.size = u'.decls.size := h.decls.length_eq
  have hid := lt_of_decl hd
  have hid' : id < u'.decls.size := hlen ▸ hid
  refine ⟨u'.decls[id], decl_eq_ok.2 (Array.getElem?_eq_getElem hid'), ?_⟩
  obtain rfl := Option.some.inj ((Array.getElem?_eq_getElem hid).symm.trans (decl_eq_ok.1 hd))
  exact h.decls.get hid hid'

end TranslationUnit

end CheckedPointers
