import CheckedPointers.Proofs.Analysis.Macros
import CheckedPointers.Proofs.Session.Standing

/-!
The first variable of each kind at an anchor is there to stay. Once a declarator has been given its
variable, whoever declares the like at the same anchor finds it there: no variable is made and no
table changes, and all that a later declaration can do is to force what stands there, if a macro
produced it.
-/
namespace CheckedPointers

open Op

namespace Decl

variable {d d' : Decl} {arena : Arena} {v : VarId}

/-- Both are of function type, or both are of pointer or array type. -/
def SameClass (d d' : Decl) : Prop :=
  ∃ ty ty', d.ty? = some ty ∧ d'.ty? = some ty' ∧
    (ty.isFunction ∧ ty'.isFunction ∨
      (ty.isPointer ∨ ty.isArray) ∧ (ty'.isPointer ∨ ty'.isArray))

theorem SameClass.asksVariable (h : d.SameClass d') : d.AsksVariable := by
  obtain ⟨ty, ty', hty, hty', h⟩ := h
  exact ⟨ty, hty, h.imp And.left And.left⟩

theorem SameClass.suits (h : d.SameClass d') (hv : d.Suits arena v) : d'.Suits arena v := by
  obtain ⟨ty, ty', hty, hty', ⟨hfun, hfun'⟩ | ⟨hptr, hptr'⟩⟩ := h
  · exact ⟨ty', hty', .inl ⟨hfun', hv.isFunction hty hfun⟩⟩
  · exact ⟨ty', hty', .inr ⟨hptr', hv.isPointer hty (CType.not_isFunction_of_isPointer hptr)⟩⟩

end Decl

namespace Session

variable {s t w : Session} {u : TranslationUnit} {id : DeclId} {d : Decl} {v : VarId}
  {options : Options}

/-- Where a variable of its kind stands, a declarator of function type is given none. -/
theorem giveFunction_again {ty : CType} (hty : d.ty? = some ty) (hv : v ∈ s.storedAt d.anchor)
    (hsuits : d.Suits s.arena v) : (giveFunction u id d ty).Ends s false s := by
  refine ends_bind.2 ⟨s, s, ends_get.2 ⟨rfl, rfl⟩, ?_⟩
  rw [if_neg]
  · exact ends_pure.2 ⟨rfl, rfl⟩
  · intro hnone
    simp only [Bool.and_eq_true, Bool.not_eq_true', List.any_eq_false] at hnone
    exact hnone.2 v hv (hsuits.isFunction hty hnone.1)

/-- Nor is one of pointer or array type. -/
theorem givePointer_again {ty : CType} (hty : d.ty? = some ty) (hv : v ∈ s.storedAt d.anchor)
    (hsuits : d.Suits s.arena v) : (givePointer d ty).Ends s false s := by
  refine ends_bind.2 ⟨s, s, ends_get.2 ⟨rfl, rfl⟩, ?_⟩
  rw [if_neg]
  · exact ends_pure.2 ⟨rfl, rfl⟩
  · intro hnone
    simp only [Bool.and_eq_true, Bool.or_eq_true, Bool.not_eq_true', List.any_eq_false] at hnone
    exact hnone.2 v hv (hsuits.isPointer hty (CType.not_isFunction_of_isPointer hnone.1))

def ForcesAt (s : Session) (anchor : Anchor) (c : Constraint) : Prop :=
  ∃ v ∈ s.storedAt anchor, BoundOn s.arena .leastSafe v c

/-- Whatever stands at an anchor is forced, and nothing else. -/
theorem forceAnchor_ends (hs : s.WellFormed) {set : VarSet} {anchor : Anchor}
    (hset : s.index.find? anchor = some set) :
    ∃ t, (discard (boundSet set .leastSafe)).Ends s ⟨⟩ t ∧ s.Records t ∧
      ∀ c ∈ t.solver.constraints, c ∈ s.solver.constraints ∨ s.ForcesAt anchor c := by
  have hstored : s.storedAt anchor = set := by rw [storedAt, hset, Option.getD_some]
  have hholds : Holds set s := fun v hv => hs.stored_lt (hstored.symm ▸ hv)
  obtain ⟨made, t, hends⟩ := (boundSet_failsOnly (c := .leastSafe) hs hholds).ends
  obtain ⟨hst, hadded⟩ := (boundAll_adds .leastSafe set.members s).of_ends hends
  refine ⟨t, ends_discard.2 ⟨made, hends⟩, hst, fun c hc => (hadded c hc).imp_right ?_⟩
  rintro ⟨v, hv, hbound⟩
  exact ⟨v, hstored.symm ▸ hv, hbound⟩

/-- Where a variable of its kind stands, a declarator is given none and nothing is said but, if a
macro produced it, of what stands there. -/
theorem giveVariables_again {o : OpenUnit} (hs : s.WellFormed) (ho : IsOpen u o s)
    (hd : u.decl id = .ok d) (hdecl : d.isDeclarator) (hv : v ∈ s.storedAt d.anchor)
    (hsuits : d.Suits s.arena v) :
    ∃ t, (giveVariables u id).Ends s false t ∧ s.Records t ∧ (d.isRewritable → t = s) ∧
      ∀ c ∈ t.solver.constraints, c ∈ s.solver.constraints ∨ s.ForcesAt d.anchor c := by
  obtain ⟨ty, hty⟩ := Decl.exists_ty_of_isDeclarator hdecl
  have hopen : (requireOpen u).Ends s ⟨⟩ s :=
    ends_bind.2 ⟨o, s, ends_current ho, ends_pure.2 ⟨rfl, rfl⟩⟩
  have hfunction : (giveFunction u id d ty).Ends s false s := giveFunction_again hty hv hsuits
  have hpointer := givePointer_again hty hv hsuits
  by_cases hplain : d.isRewritable
  · refine ⟨s, ?_, .refl s, fun _ => rfl, fun _ => .inl⟩
    rw [giveVariables, ends_bind]
    simp only [hd, lift_ok_bind, hdecl, hty, hplain]
    refine ⟨⟨⟩, s, hopen, ends_bind.2 ⟨false, s, hfunction, ends_bind.2 ⟨false, s, hpointer, ?_⟩⟩⟩
    exact ends_pure.2 ⟨rfl, rfl⟩
  · cases hset : s.index.find? d.anchor with
    | none =>
      rw [storedAt, hset] at hv
      exact absurd hv (VarSet.not_mem_empty v)
    | some set =>
      obtain ⟨t, hforced, hst, hadded⟩ := forceAnchor_ends hs hset
      refine ⟨t, ?_, hst, fun h => absurd h hplain, hadded⟩
      rw [giveVariables, ends_bind]
      simp only [hd, lift_ok_bind, hdecl, hty, hplain]
      refine ⟨⟨⟩, s, hopen, ends_bind.2 ⟨false, s, hfunction, ends_bind.2 ⟨false, s, hpointer, ?_⟩⟩⟩
      -- only the forcing is left
      refine ends_bind.2 ⟨s, s, ends_get.2 ⟨rfl, rfl⟩, ?_⟩
      simp only [hset]
      exact ends_bind.2 ⟨⟨⟩, t, hforced, ends_pure.2 ⟨rfl, rfl⟩⟩

/-- At an anchor stands one function variable at most. Once a declarator has been given its
variables, then, whatever has been asked of the session since, giving variables to one of its class
at the same anchor in whatever unit ends without making any. It changes no table, and adds no atom
and no constraint but, if a macro produced the declarator, bounds on what stands at the anchor. -/
theorem Reachable.first_variable_stays (hs : Reachable options s) :
    (∀ anchor, ∀ v ∈ s.storedAt anchor, ∀ w ∈ s.storedAt anchor,
      s.arena.isFunction v → s.arena.isFunction w → v = w) ∧
    ∀ u id d made t, u.decl id = .ok d → d.isDeclarator → (giveVariables u id).Ends s made t →
      ∀ rs w, (Session.requests rs).Ends t ⟨⟩ w →
        ∀ u' id' d' o, IsOpen u' o w → u'.decl id' = .ok d' → d'.isDeclarator →
          d'.anchor = d.anchor → d.SameClass d' →
            ∃ z, (giveVariables u' id').Ends w false z ∧ w.Records z ∧
              (d'.isRewritable → z = w) ∧
              ∀ c ∈ z.solver.constraints,
                c ∈ w.solver.constraints ∨ w.ForcesAt d'.anchor c := by
  refine ⟨hs.standing.alone, ?_⟩
  intro u id d made t hd hdecl hgiven rs w hrequests u' id' d' o ho hd' hdecl' hanchor hclass
  have hplaced := ((giveVariables_places hd hs.wellFormed).of_ends hgiven).2
  obtain ⟨v, hv, hsuits⟩ := hplaced.stands hdecl hclass.asksVariable
  have ht : Reachable options t :=
    hs.ended (r := .giveVariables u id) (ends_discard.2 ⟨made, hgiven⟩)
  have htw := indexes_of_requests ht hrequests
  have hvw : v ∈ w.storedAt d'.anchor := hanchor ▸ htw.index d.anchor v hv
  exact giveVariables_again (ht.requests hrequests).wellFormed ho hd' hdecl' hvw
    (hclass.suits (hsuits.grows htw.arena))

/-- Two units that include a header. The second one sees the variable of the header in a macro. -/
def headerUnit (second : Bool) : TranslationUnit :=
  if second then includingUnit 1 "b.c" false true else includingUnit 0 "a.c" false false

def headerVisits : Op Bool := do
  requests [.enter (headerUnit false)]
  let made ← giveVariables (headerUnit false) 2
  requests [.exit, .enter (headerUnit true)]
  return made

/-- The second unit makes no variable, and forces the one that is there. -/
theorem Reachable.first_variable_stays_header :
    ∃ s t w z, Reachable .default s ∧ (giveVariables (headerUnit false) 2).Ends s true t ∧
      (Session.requests [.exit, .enter (headerUnit true)]).Ends t ⟨⟩ w ∧
      (giveVariables (headerUnit true) 2).Ends w false z ∧ w.Records z ∧
      w.storedAt (headerVariable true).anchor = .singleton 0 ∧
      w.solver.solve.category 0 = .ptr ∧ z.solver.solve.category 0 = .wild := by
  obtain ⟨made, w, hends, hfound⟩ := exists_ends (x := headerVisits) (s := .new .default)
    (g := fun made w => made && w.storedAt (headerVariable true).anchor = .singleton 0 &&
      w.opened.map (fun o => (o.id, o.file)) = some (1, "b.c") &&
      w.solver.solve.category 0 = .ptr &&
      (giveVariables (headerUnit true) 2 w).2.solver.solve.category 0 = .wild)
    (b := true) (by decide +kernel)
  simp only [Bool.and_eq_true, decide_eq_true_eq] at hfound
  obtain ⟨⟨⟨⟨hmade, hstored⟩, hopened⟩, hbefore⟩, hafter⟩ := hfound
  obtain ⟨_, s, hindexed, hends⟩ := ends_bind.1 hends
  obtain ⟨made', t, hgiven, hends⟩ := ends_bind.1 hends
  obtain ⟨_, w', hentered, hends⟩ := ends_bind.1 hends
  obtain ⟨rfl, rfl⟩ := ends_pure.1 hends
  obtain rfl := hmade
  obtain ⟨o, ho, hid⟩ := Option.map_eq_some_iff.1 hopened
  have hs : Reachable .default s := Reachable.new.requests hindexed
  obtain ⟨-, hstays⟩ := hs.first_variable_stays
  obtain ⟨z, hagain, hwz, -, -⟩ := hstays (headerUnit false) 2 (headerVariable false) true t rfl rfl
    hgiven _ w' hentered (headerUnit true) 2 (headerVariable true) o ⟨ho, Prod.mk.inj hid⟩ rfl rfl
    rfl ⟨_, _, rfl, rfl, .inr ⟨.inl rfl, .inl rfl⟩⟩
  have hrun : giveVariables (headerUnit true) 2 w' = (.ok false, z) := hagain
  rw [hrun] at hafter
  exact ⟨s, t, w', z, hs, hgiven, hentered, hagain, hwz, hstored, hbefore, hafter⟩

end Session

end CheckedPointers
