import CheckedPointers.Proofs.Session.Placing
import CheckedPointers.Proofs.Session.Sites

/-!
Indexing as a run of visits, one for each declarator, in the order of the units. What stands at an
anchor in the end was put there by one of the visits, and the flags that the later visits raise
bound it too.
-/
namespace CheckedPointers

open Op

namespace Session

variable {s t w : Session} {u : TranslationUnit} {id : DeclId} {d : Decl} {v : VarId}
  {anchor : Anchor} {l l' before after : List (TranslationUnit × DeclId)}
  {units : List TranslationUnit}

/-- The declarators of some units in the order in which they are visited. -/
def visitOrder (units : List TranslationUnit) : List (TranslationUnit × DeclId) :=
  units.flatMap fun u => (u.declarators.toOption.getD []).map (u, ·)

structure Idles (s t : Session) : Prop where
  indexes : s.Indexes t
  index : t.index = s.index

theorem Follows.idles (h : s.Follows t) : s.Idles t := ⟨h.indexes, h.index⟩

inductive Placements : List (TranslationUnit × DeclId) → Session → Session → Prop where
  | refl (s : Session) : Placements [] s s
  | idle {l : List (TranslationUnit × DeclId)} {s t w : Session} (h : s.Idles t)
      (rest : Placements l t w) : Placements l s w
  | visit {u : TranslationUnit} {id : DeclId} {d : Decl} {l : List (TranslationUnit × DeclId)}
      {s t w : Session} (hd : u.decl id = .ok d) (h : Placement u d s t)
      (rest : Placements l t w) : Placements ((u, id) :: l) s w

namespace Placements

theorem indexes (h : Placements l s t) : s.Indexes t := by
  induction h with
  | refl s => exact .refl s
  | idle h _ ih => exact h.indexes.trans ih
  | visit _ h _ ih => exact h.indexes.trans ih

theorem append (h : Placements l s t) (h' : Placements l' t w) : Placements (l ++ l') s w := by
  induction h with
  | refl _ => exact h'
  | idle h _ ih => exact .idle h (ih h')
  | visit hd h _ ih => exact .visit hd h (ih h')

/-- The run split at one of its visits. -/
theorem split (h : Placements (before ++ (u, id) :: after) s w) :
    ∃ a b d, Placements before s a ∧ u.decl id = .ok d ∧ Placement u d a b ∧
      Placements after b w := by
  generalize hl : before ++ (u, id) :: after = l at h
  induction h generalizing before with
  | refl _ => exact absurd hl (by simp)
  | idle h _ ih =>
    obtain ⟨a, b, d, hbefore, hrest⟩ := ih hl
    exact ⟨a, b, d, .idle h hbefore, hrest⟩
  | visit hd h hafter ih =>
    cases before with
    | nil =>
      obtain ⟨hsame, rfl⟩ := List.cons.inj hl
      obtain ⟨rfl, rfl⟩ := Prod.mk.inj hsame
      exact ⟨_, _, _, .refl _, hd, h, hafter⟩
    | cons e before =>
      obtain ⟨rfl, hl'⟩ := List.cons.inj hl
      obtain ⟨a, b, d, hbefore, hrest⟩ := ih hl'
      exact ⟨a, b, d, .visit hd h hbefore, hrest⟩

/-- What stands at an anchor stood there before, or one of the visits put it there. -/
theorem exists_placed (h : Placements l s w) (hv : v ∈ w.storedAt anchor) :
    v ∈ s.storedAt anchor ∨ ∃ before u id after a b d, l = before ++ (u, id) :: after ∧
      Placements before s a ∧ u.decl id = .ok d ∧ Placement u d a b ∧ Placements after b w ∧
      v ∈ b.storedAt anchor ∧ Placed u d a b anchor v := by
  induction h with
  | refl _ => exact .inl hv
  | idle h _ ih =>
    refine (ih hv).imp (fun hold => ?_) ?_
    · rwa [storedAt, h.index] at hold
    · rintro ⟨before, u, id, after, a, b, d, hl, hbefore, hrest⟩
      exact ⟨before, u, id, after, a, b, d, hl, .idle h hbefore, hrest⟩
  | visit hd h hafter ih =>
    rcases ih hv with hv | ⟨before, u, id, after, a, b, d, rfl, hbefore, hrest⟩
    · refine (h.placed anchor v hv).imp_right fun hplaced => ?_
      exact ⟨[], _, _, _, _, _, _, rfl, .refl _, hd, h, hafter, hv, hplaced⟩
    · exact .inr ⟨_ :: before, u, id, after, a, b, d, rfl, .visit hd h hbefore, hrest⟩

/-- Where a declarator that was visited asks for a variable, one of its kind stands. -/
theorem stands (h : Placements l s w) (hmem : (u, id) ∈ l) (hd : u.decl id = .ok d)
    (hdecl : d.isDeclarator) (hasks : d.AsksVariable) :
    ∃ v ∈ w.storedAt d.anchor, d.Suits w.arena v := by
  obtain ⟨before, after, rfl⟩ := List.append_of_mem hmem
  obtain ⟨a, b, d', -, hd', hvisit, hafter⟩ := h.split
  obtain rfl := Except.ok.inj (hd.symm.trans hd')
  obtain ⟨v, hv, hsuits⟩ := hvisit.stands hdecl hasks
  exact ⟨v, hafter.indexes.index _ v hv, hsuits.grows hafter.indexes.arena⟩

end Placements

/-! ## The first function at an anchor -/

/-- It declares a function, and no function declared at its anchor is visited before it. -/
structure Opens (l : List (TranslationUnit × DeclId)) (u : TranslationUnit) (id : DeclId)
    (d : Decl) : Prop where
  decl : u.decl id = .ok d
  isFunction : d.isFunction
  first : ∃ before after, l = before ++ (u, id) :: after ∧
    ∀ e ∈ before, ∀ d', e.1.decl e.2 = .ok d' → d'.isFunction → d'.anchor ≠ d.anchor

def OpensParam (l : List (TranslationUnit × DeclId)) (p : Decl) : Prop :=
  ∃ u id d, Opens l u id d ∧ u.Lists d p

/-- Variables are put where the declaration stands on its account: it is a declarator that asks
for one, or a parameter of the first function declared at an anchor. -/
def PutsVariable (l : List (TranslationUnit × DeclId)) (d : Decl) : Prop :=
  (∃ u id, (u, id) ∈ l ∧ u.decl id = .ok d ∧ d.isDeclarator ∧ d.AsksVariable) ∨ OpensParam l d

namespace Placements

/-- Where no function stands, none was declared. -/
theorem opens (h : Placements before s t) (hd : u.decl id = .ok d) (hfun : d.isFunction)
    (hvacant : t.Vacant d.anchor) : Opens (before ++ (u, id) :: after) u id d := by
  refine ⟨hd, hfun, before, after, rfl, fun e he d' hd' hfun' hanchor => ?_⟩
  obtain ⟨hdecl, ty, hty⟩ := Decl.isDeclarator_of_isFunction hfun'
  have hty' := Decl.ty_isFunction_of_isFunction hfun' hty
  obtain ⟨v, hv, hsuits⟩ := h.stands he hd' hdecl ⟨ty, hty, .inl hty'⟩
  exact hvacant v (hanchor ▸ hv) (hsuits.isFunction hty hty')

/-- Where no function was declared, none stands. -/
theorem vacant (h : Placements before s t) (hs : s.WellFormed)
    (hnew : ∀ v, v ∉ s.storedAt anchor) (hfirst : ∀ e ∈ before, ∀ d', e.1.decl e.2 = .ok d' →
      d'.isFunction → d'.anchor ≠ anchor) : t.Vacant anchor := by
  intro v hv hfun
  rcases h.exists_placed hv with
    hold | ⟨_, u, id, _, a, b, d, hl, ha, hd, hvisit, hb, -, hplaced⟩
  · exact hnew v hold
  · have hbwf := hvisit.indexes.wellFormed (ha.indexes.wellFormed hs)
    cases hplaced with
    | declared _ hanchor suits function _ =>
      have hlt : v < b.arena.size := by
        obtain ⟨_, _, ⟨_, h⟩ | ⟨_, h⟩⟩ := suits
        · exact Arena.lt_of_isFunction h
        · exact Arena.lt_of_isPointer h
      rw [hb.indexes.arena.isFunction_eq hlt] at hfun
      have hmem : (u, id) ∈ before := hl ▸ List.mem_append_right _ List.mem_cons_self
      exact hfirst _ hmem d hd (function hfun) hanchor.symm
    | listed p _ _ _ _ pointer _ =>
      exact Arena.not_isFunction (hb.indexes.arena.isPointer pointer) hfun

/-! ## What is bounded -/

/-- The flag of a declarator binds every variable of its kind, but for those that were put there
later for a parameter that does not bear the flag. -/
theorem forced (h : Placements l s w) (hmem : (u, id) ∈ l) (hd : u.decl id = .ok d)
    (hdecl : d.isDeclarator) (hflagged : d.inMacro) (hv : v ∈ w.storedAt d.anchor)
    (hsuits : d.Suits w.arena v) : w.Bounded .leastSafe v ∨
      w.arena.isPointer v ∧ ∃ p, OpensParam l p ∧ p.anchor = d.anchor ∧ ¬ p.inMacro := by
  obtain ⟨before, after, rfl⟩ := List.append_of_mem hmem
  obtain ⟨a, b, d', hbefore, hd', hvisit, hafter⟩ := h.split
  obtain rfl := Except.ok.inj (hd.symm.trans hd')
  rcases hafter.exists_placed hv with
    hold | ⟨between, u', id', rest, a', b', d', rfl, hbetween, hd', _, hrest, -, hplaced⟩
  · exact .inl ((hvisit.forced hdecl hflagged v hold).extends hafter.indexes.toExtends)
  · cases hplaced with
    | declared _ _ suits _ first =>
      obtain ⟨x, hx, hxsuits⟩ := hvisit.stands hdecl hsuits.asksVariable
      refine absurd ?_ (first x (hbetween.indexes.index _ x hx))
      exact hsuits.of_suits (hxsuits.grows hbetween.indexes.arena)
        (suits.grows hrest.indexes.arena)
    | listed p hfun vacant lists hanchor pointer bounded =>
      by_cases hp : p.inMacro
      · exact .inl ((bounded hp).extends hrest.indexes.toExtends)
      · refine .inr ⟨hrest.indexes.arena.isPointer pointer, p, ⟨u', id', d', ?_, lists⟩,
          hanchor.symm, hp⟩
        have hopens : Opens ((before ++ (u, id) :: between) ++ (u', id') :: rest) u' id' d' :=
          (hbefore.append (.visit hd hvisit hbetween)).opens hd' hfun vacant
        rwa [List.append_assoc, List.cons_append] at hopens

/-- Where every declaration bears the flag, all that stands there is bounded. -/
theorem bounded (h : Placements l s w) (hnew : ∀ v, v ∉ s.storedAt anchor)
    (hall : ∀ d, PutsVariable l d → d.anchor = anchor → d.inMacro)
    (hv : v ∈ w.storedAt anchor) : w.Bounded .leastSafe v := by
  rcases h.exists_placed hv with
    hold | ⟨before, u, id, after, a, b, d, rfl, ha, hd, hvisit, hb, hvb, hplaced⟩
  · exact absurd hold (hnew v)
  · suffices hbound : b.Bounded .leastSafe v from hbound.extends hb.indexes.toExtends
    cases hplaced with
    | declared hdecl hanchor suits _ _ =>
      have hputs : PutsVariable (before ++ (u, id) :: after) d :=
        .inl ⟨u, id, List.mem_append_right _ List.mem_cons_self, hd, hdecl, suits.asksVariable⟩
      exact hvisit.forced hdecl (hall d hputs hanchor.symm) v (hanchor ▸ hvb)
    | listed p hfun vacant lists hanchor _ bounded =>
      exact bounded (hall p (.inr ⟨u, id, d, ha.opens hd hfun vacant, lists⟩) hanchor.symm)

/-- The parameters of the first function declared at an anchor stand in its slots and where they
are declared, and are bounded if they bear the flag. -/
theorem opened (h : Placements l s w) (hs : s.WellFormed) (hopens : Opens l u id d)
    (hnew : ∀ v, v ∉ s.storedAt d.anchor) : ∃ v ∈ w.storedAt d.anchor, ∃ f,
      w.arena.function? v = some f ∧ List.Forall₂ (SlotOf u w) d.params f.params ∧
      ∀ e ∈ d.params.zip f.params, ∀ p, u.decl e.1 = .ok p →
        ∀ x ∈ e.2, x ∈ w.storedAt p.anchor := by
  obtain ⟨before, after, rfl, hfirst⟩ := hopens.first
  obtain ⟨a, b, d', ha, hd', hvisit, hb⟩ := h.split
  obtain rfl := Except.ok.inj (hopens.decl.symm.trans hd')
  obtain ⟨v, hv, f, hf, hslots, hplaces⟩ :=
    hvisit.slots hopens.isFunction (ha.vacant hs hnew hfirst)
  have hbw := hb.indexes
  refine ⟨v, hbw.index _ v hv, f, hbw.arena.function? hf,
    hslots.imp fun _ _ hslot => hslot.extends hbw.toExtends, fun e he p hp x hx => ?_⟩
  exact hbw.index _ x (hplaces e he p hp x hx)

end Placements

end Session

end CheckedPointers
