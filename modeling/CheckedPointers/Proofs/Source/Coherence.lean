import CheckedPointers.Source.Unit

/-!
Units of one program. Ids and anchors tell apart what they should, and what two units declare at
one anchor is the same.
-/
namespace CheckedPointers

/-- What is left of a declaration without the ids that mean something only in its unit. -/
def Decl.outline (d : Decl) : Decl :=
  { d with kind := match d.kind with
    | .var ty isGlobal itype _ => .var ty isGlobal itype none
    | .function signature _ isGlobal body => .function signature [] isGlobal (body.map fun _ => [])
    | .param ty _ itype => .param ty none itype
    | kind => kind }

namespace Decl

variable {α : Type} {d e : Decl}

/-- What can be told from the outline is the same of two declarations with one outline. -/
theorem eq_of_outline {g : Decl → α} (hg : ∀ d, g d.outline = g d) (h : d.outline = e.outline) :
    g d = g e := by rw [← hg d, h, hg e]

theorem outline_ty? (d : Decl) : d.outline.ty? = d.ty? := by
  unfold ty? outline
  cases d.kind <;> rfl

theorem outline_itype? (d : Decl) : d.outline.itype? = d.itype? := by
  unfold itype? outline
  cases d.kind <;> rfl

theorem outline_isFunction (d : Decl) : d.outline.isFunction = d.isFunction := by
  unfold isFunction outline
  cases d.kind <;> rfl

theorem outline_isParam (d : Decl) : d.outline.isParam = d.isParam := by
  unfold isParam outline
  cases d.kind <;> rfl

theorem outline_isDeclarator (d : Decl) : d.outline.isDeclarator = d.isDeclarator := by
  unfold isDeclarator outline
  cases d.kind <;> rfl

theorem outline_hasBody (d : Decl) : d.outline.hasBody = d.hasBody := by
  unfold hasBody body? outline
  cases d.kind with
  | function _ _ _ body => cases body <;> rfl
  | _ => rfl

end Decl

namespace TranslationUnit

def paramAnchors (u : TranslationUnit) (d : Decl) : List (Option Anchor) :=
  d.params.map fun p => u.decls[p]?.map Decl.anchor

def Agrees (u v : TranslationUnit) : Prop :=
  ∀ x ∈ u.decls, ∀ y ∈ v.decls, x.anchor = y.anchor →
    x.outline = y.outline ∧ u.paramAnchors x = v.paramAnchors y

/-- No two units have one id, no two declarations of one unit have one anchor, and two units
declare the same at an anchor. -/
structure Coherent (units : List TranslationUnit) : Prop where
  ids : (units.map TranslationUnit.id).Nodup
  anchors : ∀ u ∈ units, (u.decls.toList.map Decl.anchor).Nodup
  agree : units.Pairwise Agrees

/-- Units that have no anchor in common agree. -/
theorem Agrees.of_apart {u v : TranslationUnit}
    (h : ∀ x ∈ u.decls, ∀ y ∈ v.decls, x.anchor ≠ y.anchor) : u.Agrees v :=
  fun x hx y hy he => absurd he (h x hx y hy)

theorem Agrees.symm {u v : TranslationUnit} (h : u.Agrees v) : v.Agrees u :=
  fun x hx y hy he => (h y hy x hx he.symm).imp Eq.symm Eq.symm

end TranslationUnit

end CheckedPointers
