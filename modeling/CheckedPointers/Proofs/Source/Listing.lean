import CheckedPointers.Proofs.Source.Closed
import CheckedPointers.Proofs.Source.Coherence
import Mathlib.Data.List.Nodup
import Mathlib.Data.List.Pairwise

/-!
Where functions and their parameters are declared. If units agree on what stands at an anchor, then
what is declared where a function is is that function, whichever unit declares it. A parameter can
still stand where one of another function does: whose it is the anchor does not tell.
-/
namespace CheckedPointers

namespace Decl

variable {d e : Decl}

theorem isFunction_of_outline (h : d.outline = e.outline) : d.isFunction = e.isFunction :=
  eq_of_outline outline_isFunction h

theorem isParam_of_outline (h : d.outline = e.outline) : d.isParam = e.isParam :=
  eq_of_outline outline_isParam h

theorem not_isParam_of_isFunction (h : d.isFunction) : ¬ d.isParam := by
  unfold isFunction at h
  unfold isParam
  cases hk : d.kind <;> simp [hk] at h ⊢

theorem isParam_of_owner {f : DeclId} (h : d.owner? = some f) : d.isParam := by
  unfold owner? at h
  unfold isParam
  cases hk : d.kind <;> simp [hk] at h ⊢

end Decl

structure Site where
  anchor : Anchor
  params : List (Option Anchor)

def Site.Covers (site : Site) (a : Anchor) : Prop := a = site.anchor ∨ some a ∈ site.params

namespace TranslationUnit

variable {u w : TranslationUnit} {units : List TranslationUnit} {d e : Decl} {f g p q : DeclId}
  {a : Anchor}

def siteOf (u : TranslationUnit) (d : Decl) : Site := ⟨d.anchor, u.paramAnchors d⟩

/-- Anchors tell declarations of one unit apart and are given alike by all units. Every function is
declared at file scope or in a body there, no parameter is, and a function lists parameters of its
own, each of them once. -/
structure Listing (units : List TranslationUnit) : Prop where
  anchors : ∀ u ∈ units, (u.decls.toList.map Decl.anchor).Nodup
  agree : ∀ u ∈ units, ∀ w ∈ units, u.Agrees w
  declared : ∀ u ∈ units, ∀ f, u.IsFunction f → ∃ ids, u.declarators = .ok ids ∧ f ∈ ids
  unlisted : ∀ u ∈ units, ∀ ids, u.declarators = .ok ids → ∀ id ∈ ids, ∀ d, u.decl id = .ok d →
    ¬ d.isParam
  owned : ∀ u ∈ units, ∀ f d, u.decl f = .ok d → ∀ p ∈ d.params,
    ∃ e, u.decl p = .ok e ∧ e.owner? = some f
  once : ∀ u ∈ units, ∀ f d, u.decl f = .ok d → d.params.Nodup

/-- Parameters that stand where the parameter at a position of a function does belong to functions
that stand where that one does. -/
def Undisputed (units : List TranslationUnit) (u : TranslationUnit) (func : DeclId) (i : Nat) :
    Prop :=
  ∀ d, u.decl func = .ok d → ∀ a, (u.paramAnchors d)[i]? = some (some a) →
    ∀ w ∈ units, ∀ e ∈ w.decls, some a ∈ w.paramAnchors e → e.anchor = d.anchor

def Sites (units : List TranslationUnit) (site : Site) : Prop :=
  ∃ u ∈ units, ∃ f d, u.decl f = .ok d ∧ d.isFunction ∧ site = u.siteOf d

/-- Of the functions that the units declare, only this one has to do with the anchor. -/
def Owns (units : List TranslationUnit) (site : Site) (a : Anchor) : Prop :=
  ∀ τ, Sites units τ → τ.Covers a → τ = site

theorem mem_decls (h : u.decl f = .ok d) : d ∈ u.decls := Array.mem_of_getElem? (decl_eq_ok.1 h)

theorem anchor?_eq_some : u.decls[p]?.map Decl.anchor = some a ↔
    ∃ e, u.decl p = .ok e ∧ e.anchor = a := by
  simp only [Option.map_eq_some_iff, decl_eq_ok]

theorem mem_paramAnchors : some a ∈ u.paramAnchors d ↔
    ∃ p ∈ d.params, ∃ e, u.decl p = .ok e ∧ e.anchor = a := by
  simp only [paramAnchors, List.mem_map, anchor?_eq_some]

theorem getElem?_paramAnchors {i : Nat} : (u.paramAnchors d)[i]? = some (some a) ↔
    ∃ p, d.params[i]? = some p ∧ ∃ e, u.decl p = .ok e ∧ e.anchor = a := by
  rw [paramAnchors, List.getElem?_map, Option.map_eq_some_iff]
  simp only [anchor?_eq_some]

namespace Listing

/-- It is enough to compare every two units and to look at every declaration by itself. -/
theorem of_decls (hanchors : ∀ u ∈ units, (u.decls.toList.map Decl.anchor).Nodup)
    (hagree : units.Pairwise Agrees)
    (h : ∀ u ∈ units, ∃ ids, u.declarators = .ok ids ∧ ∀ f : Fin u.decls.size,
      (u.decls[f].isFunction → f.val ∈ ids) ∧ (f.val ∈ ids → ¬ u.decls[f].isParam) ∧
        (∀ p ∈ u.decls[f].params, u.decls[p]?.bind Decl.owner? = some f.val) ∧
        u.decls[f].params.Nodup) : Listing units := by
  have hdecl : ∀ {u : TranslationUnit} {f : DeclId} {d : Decl}, u.decl f = .ok d →
      ∃ i : Fin u.decls.size, i.val = f ∧ u.decls[i] = d := fun hd =>
    let ⟨hlt, hsame⟩ := Array.getElem?_eq_some_iff.1 (decl_eq_ok.1 hd)
    ⟨⟨_, hlt⟩, rfl, hsame⟩
  constructor
  case anchors => exact hanchors
  case agree =>
    have hsymm : Std.Symm Agrees := ⟨fun _ _ => Agrees.symm⟩
    refine fun u hu w hw => hagree.forall_of_forall (fun u hu x hx y hy ha => ?_) hu hw
    obtain rfl := List.inj_on_of_nodup_map (hanchors u hu) (Array.mem_toList_iff.2 hx)
      (Array.mem_toList_iff.2 hy) ha
    exact ⟨rfl, rfl⟩
  case declared =>
    rintro u hu f ⟨d, hd, hfun⟩
    obtain ⟨ids, hids, hall⟩ := h u hu
    obtain ⟨i, rfl, rfl⟩ := hdecl hd
    exact ⟨ids, hids, (hall i).1 hfun⟩
  case unlisted =>
    intro u hu ids hids f hf d hd
    obtain ⟨ids', hids', hall⟩ := h u hu
    obtain rfl := Except.ok.inj (hids.symm.trans hids')
    obtain ⟨i, rfl, rfl⟩ := hdecl hd
    exact (hall i).2.1 hf
  case owned =>
    intro u hu f d hd p hp
    obtain ⟨ids, -, hall⟩ := h u hu
    obtain ⟨i, rfl, rfl⟩ := hdecl hd
    obtain ⟨e, he, howner⟩ := Option.bind_eq_some_iff.1 ((hall i).2.2.1 p hp)
    exact ⟨e, decl_eq_ok.2 he, howner⟩
  case once =>
    intro u hu f d hd
    obtain ⟨ids, -, hall⟩ := h u hu
    obtain ⟨i, rfl, rfl⟩ := hdecl hd
    exact (hall i).2.2.2

variable (h : Listing units)

include h

/-- Within a unit an anchor names one declaration. -/
theorem eq_of_anchor (hu : u ∈ units) (hp : u.decl p = .ok d) (hq : u.decl q = .ok e)
    (ha : d.anchor = e.anchor) : p = q := by
  have hp' : (u.decls.toList.map Decl.anchor)[p]? = some d.anchor := by
    rw [List.getElem?_map, Array.getElem?_toList, decl_eq_ok.1 hp, Option.map_some]
  have hq' : (u.decls.toList.map Decl.anchor)[q]? = some d.anchor := by
    rw [List.getElem?_map, Array.getElem?_toList, decl_eq_ok.1 hq, Option.map_some, ha]
  exact (List.getElem?_inj (List.getElem?_eq_some_iff.1 hp').1 (h.anchors u hu)).1
    (hp'.trans hq'.symm)

/-- What stands where a parameter does is a parameter. -/
theorem isParam_of_anchor (hu : u ∈ units) (hw : w ∈ units) (hd : u.decl f = .ok d)
    (ha : some a ∈ u.paramAnchors d) (he : w.decl g = .ok e) (hae : e.anchor = a) :
    e.isParam := by
  obtain ⟨p, hp, x, hx, rfl⟩ := mem_paramAnchors.1 ha
  obtain ⟨x', hx', howner⟩ := h.owned u hu f d hd p hp
  obtain rfl := Except.ok.inj (hx.symm.trans hx')
  have hsame := (h.agree w hw u hu e (mem_decls he) x (mem_decls hx) hae).1
  rw [Decl.isParam_of_outline hsame]
  exact Decl.isParam_of_owner howner

/-- Functions declared at one anchor have their parameters at the same anchors. -/
theorem site_eq (hu : u ∈ units) (hw : w ∈ units) (hd : u.decl f = .ok d) (he : w.decl g = .ok e)
    (ha : d.anchor = e.anchor) : u.siteOf d = w.siteOf e := by
  rw [siteOf, siteOf, ha, (h.agree u hu w hw d (mem_decls hd) e (mem_decls he) ha).2]

/-- Where a function is declared nothing else is. -/
theorem owns_anchor (hu : u ∈ units) (hd : u.decl f = .ok d) (hfun : d.isFunction) :
    Owns units (u.siteOf d) d.anchor := by
  rintro τ ⟨w, hw, g, e, he, -, rfl⟩ (ha | ha)
  · exact h.site_eq hw hu he hd ha.symm
  · exact absurd (h.isParam_of_anchor hw hu he ha hd rfl) (Decl.not_isParam_of_isFunction hfun)

/-- An undisputed parameter is the only one where it is. -/
theorem owns_param (hu : u ∈ units) (hd : u.decl f = .ok d) {i : Nat}
    (ha : (u.paramAnchors d)[i]? = some (some a)) (hundisputed : Undisputed units u f i) :
    Owns units (u.siteOf d) a := by
  rintro τ ⟨w, hw, g, e, he, hefun, rfl⟩ (haτ | haτ)
  · exact absurd (h.isParam_of_anchor hu hw hd (List.mem_of_getElem? ha) he haτ.symm)
      (Decl.not_isParam_of_isFunction hefun)
  · exact h.site_eq hw hu he hd (hundisputed d hd a ha w hw e (mem_decls he) haτ)

/-- What is neither a function nor a parameter stands apart from both. -/
theorem not_covers {σ : Site} (hσ : Sites units σ) (hw : w ∈ units) (he : w.decl g = .ok e)
    (hfun : ¬ e.isFunction) (hparam : ¬ e.isParam) : ¬ σ.Covers e.anchor := by
  obtain ⟨u, hu, f, d, hd, hdfun, rfl⟩ := hσ
  rintro (ha | ha)
  · have hsame := (h.agree w hw u hu e (mem_decls he) d (mem_decls hd) ha).1
    exact hfun (Decl.isFunction_of_outline hsame ▸ hdfun)
  · exact hparam (h.isParam_of_anchor hu hw hd ha he rfl)

/-- The position of a parameter is where its owner lists it. -/
theorem parameterPosition (hu : u ∈ units) (hd : u.decl f = .ok d) {i : Nat}
    (hp : d.params[i]? = some p) (he : u.decl p = .ok e) (howner : e.owner? = some f) :
    u.parameterPosition p = .ok (some (f, i)) := by
  have hidx : d.params.idxOf? p = some i := by
    obtain ⟨hlt, rfl⟩ := List.getElem?_eq_some_iff.1 hp
    rw [List.idxOf?_eq_some_iff]
    refine ⟨hlt, rfl, fun j hj hsame => ?_⟩
    have hij := (List.getElem_inj (h.once u hu f d hd)).1 hsame
    omega
  simp only [TranslationUnit.parameterPosition, he, bind, Except.bind, howner, decl_eq_ok.1 hd,
    hidx, Option.map_some]
  rfl

end Listing

end TranslationUnit

end CheckedPointers
