import CheckedPointers.Proofs.Analysis.Phases
import CheckedPointers.Proofs.Session.Placements

/-!
Declarations that a macro produced. The flag of a declarator is heard at every visit, so what stands
where it does ends up wild, whichever visit made it. The flag of a parameter is heard when the
variable of its function is made: it counts where the function is the first one declared at its
anchor, and a later declaration at the same anchor is not asked again.
-/
namespace CheckedPointers

open Op

namespace Session

variable {s t : Session} {units : List TranslationUnit} {options : Options}

/-! ## Indexing is a run of visits -/

theorem noteFunction_idles (u : TranslationUnit) (id : DeclId) (s : Session) :
    Meets .indexes (noteFunction u id) s fun _ t => s.Idles t := by
  refine ((noteFunction_meets u id s).any.frame.both (noteFunction_noted u id s)).mono ?_
  rintro _ t - ⟨⟨hst, -⟩, -, d, -, rfl⟩
  refine ⟨hst, ?_⟩
  split <;> rfl

/-- Indexing some declarators visits them one after another. -/
theorem indexAll_placements (u : TranslationUnit) (ids : List DeclId) (hs : s.WellFormed) :
    Meets .indexes (indexAll u ids) s fun _ t => Placements (ids.map (u, ·)) s t := by
  induction ids generalizing s with
  | nil => exact Meets.pure (.refl s)
  | cons id rest ih =>
    have hgive : Meets .indexes (giveVariables u id) s fun _ t =>
        ∃ d, u.decl id = .ok d ∧ Placement u d s t := by
      cases hd : u.decl id with
      | error e =>
        refine Meets.bind_requireOpen fun _ _ => Meets.bind_lift fun d hd' => ?_
        exact absurd (hd.symm.trans hd') (by simp)
      | ok d => exact (giveVariables_places hd hs).mono fun _ _ _ h => ⟨d, rfl, h⟩
    refine Meets.bind hgive fun made t hst ⟨d, hd, hvisit⟩ => Meets.bind_lift fun _ _ => ?_
    have ht : t.WellFormed := hvisit.indexes.wellFormed hs
    have hrest : ∀ w, t.Idles w → Meets .indexes (do
        let others ← indexAll u rest
        return if made then id :: others else others) w fun _ z =>
          Placements ((id :: rest).map (u, ·)) s z := fun w htw =>
      Meets.bind (ih (htw.indexes.wellFormed ht)) fun _ _ _ hothers =>
        Meets.pure (.visit hd hvisit (.idle htw hothers))
    dsimp only
    split
    · exact Meets.bind (noteFunction_idles u id t) fun _ w _ htw => hrest w htw
    · exact hrest t ⟨.refl t, rfl⟩

/-- Indexing a unit visits its declarators in order. -/
theorem indexUnit_placements (u : TranslationUnit) (hs : s.WellFormed) :
    Meets .indexes (indexUnit u) s fun _ t => Placements (visitOrder [u]) s t := by
  refine Meets.bind (enter_meets u s).frame.to_indexes fun _ t _ ⟨hst, _⟩ => ?_
  refine Meets.bind_lift fun ids hids => ?_
  refine Meets.bind (indexAll_placements u ids (hst.wellFormed hs)) fun _ w _ hvisits => ?_
  refine Meets.bind (exit_meets w).frame.to_indexes fun _ z _ ⟨hwz, _⟩ => Meets.pure ?_
  have horder : visitOrder [u] = ids.map (u, ·) ++ [] := by
    simp [visitOrder, hids, Except.toOption]
  rw [horder]
  exact .idle hst.idles (hvisits.append (.idle hwz.idles (.refl z)))

theorem indexUnits_placements (units : List TranslationUnit) (hs : s.WellFormed) :
    Meets .indexes (indexUnits units) s fun _ t => Placements (visitOrder units) s t := by
  induction units generalizing s with
  | nil => exact Meets.pure (.refl s)
  | cons u rest ih =>
    have hfirst : Meets .indexes (discard (indexUnit u)) s fun _ t =>
        Placements (visitOrder [u]) s t := Meets.discard (indexUnit_placements u hs)
    change Meets .indexes (discard (indexUnit u) >>= fun _ => indexUnits rest) s _
    refine Meets.bind hfirst fun _ t _ hvisits => ?_
    refine (ih (hvisits.indexes.wellFormed hs)).mono fun _ w _ hothers => ?_
    have horder : visitOrder (u :: rest) = visitOrder [u] ++ visitOrder rest := by
      simp [visitOrder]
    rw [horder]
    exact hvisits.append hothers

/-! ## Whole analyses -/

/-- What is bounded by the least safe category is wild once that is solved. -/
theorem Bounded.all_wild {v : VarId} (h : s.Bounded .leastSafe v) (hs : s.WellFormed) :
    s.arena.All (fun a => s.solver.solve.category a = .wild) v :=
  Arena.All.imp h (.refl _) fun _ ha =>
    Category.le_antisymm (Category.le_wild _) (ha.satisfies hs.solver)

theorem mem_visitOrder {u : TranslationUnit} {id : DeclId} {ids : List DeclId} (hu : u ∈ units)
    (hids : u.declarators = .ok ids) (hid : id ∈ ids) : (u, id) ∈ visitOrder units :=
  List.mem_flatMap.2 ⟨u, hu, List.mem_map.2 ⟨id, by simpa [hids, Except.toOption] using hid, rfl⟩⟩

namespace Phases

variable {outcome : Outcome} (p : Phases units (.new options) outcome s)

include p

theorem placements : Placements (visitOrder units) (.new options) p.indexed :=
  ((indexUnits_placements units (wellFormed_new options)).of_ends p.index).2

/-- After indexing, nothing is put at an anchor, and what was bounded is wild. -/
theorem storedAt_eq (anchor : Anchor) : s.storedAt anchor = p.indexed.storedAt anchor := by
  rw [storedAt, p.records.creates.visits.index, p.follows.index, storedAt]

theorem extends_indexed : p.indexed.Extends s :=
  p.follows.toExtends.trans p.records.creates.toExtends

theorem wild_of_bounded {v : VarId} (h : p.indexed.Bounded .leastSafe v) :
    s.arena.All (fun a => outcome.settled.sol.category a = .wild) v := by
  rw [p.isSettled.solution]
  exact (h.extends p.extends_indexed).all_wild p.wellFormed

end Phases

/-- Where a declarator asks for a variable, one of its kind stands. If a macro produced it, all of
that kind that stand there are wild, but for pointers put there for a parameter that no macro
produced. The parameters of the first function declared at an anchor stand where they are declared,
and those that a macro produced are wild. And where every declaration that puts a variable was
produced by a macro, everything is wild. -/
theorem analyse_forces_macros {outcome : Outcome}
    (h : (analyse units).Ends (.new options) outcome s) :
    let Wild : VarId → Prop := s.arena.All fun a => outcome.settled.sol.category a = .wild
    (∀ u id d, Declares units u id d → d.isDeclarator → d.AsksVariable →
      (∃ v ∈ s.storedAt d.anchor, d.Suits s.arena v) ∧
      (d.inMacro → ∀ v ∈ s.storedAt d.anchor, d.Suits s.arena v →
        Wild v ∨ s.arena.isPointer v ∧ ∃ p, OpensParam (visitOrder units) p ∧
          p.anchor = d.anchor ∧ ¬ p.inMacro)) ∧
    (∀ u id d, Opens (visitOrder units) u id d →
      ∃ v ∈ s.storedAt d.anchor, ∃ f, s.arena.function? v = some f ∧
        List.Forall₂ (fun i slot => ∃ x, slot = .singleton x ∧ ∀ p, u.decl i = .ok p →
          x ∈ s.storedAt p.anchor ∧ (p.inMacro → Wild x)) d.params f.params) ∧
    ∀ anchor, (∀ d, PutsVariable (visitOrder units) d → d.anchor = anchor → d.inMacro) →
      ∀ v ∈ s.storedAt anchor, Wild v := by
  obtain ⟨p⟩ := exists_phases h
  have hvisits := p.placements
  have hgrows := p.extends_indexed.arena
  have hnew : ∀ anchor v, v ∉ (Session.new options).storedAt anchor :=
    fun _ v => VarSet.not_mem_empty v
  intro Wild
  refine ⟨fun u id d ⟨hu, ids, hids, hid, hd⟩ hdecl hasks => ⟨?_, fun hflagged v hv hsuits => ?_⟩,
    fun u id d hopens => ?_, fun anchor hall v hv => ?_⟩
  · obtain ⟨v, hv, hsuits⟩ := hvisits.stands (mem_visitOrder hu hids hid) hd hdecl hasks
    exact ⟨v, p.storedAt_eq d.anchor ▸ hv, hsuits.grows hgrows⟩
  · rw [p.storedAt_eq] at hv
    have hlt := p.wellFormed_indexed.stored_lt hv
    have hold := (hvisits.forced (mem_visitOrder hu hids hid) hd hdecl hflagged hv
      (hsuits.of_grows hgrows hlt))
    exact hold.imp p.wild_of_bounded (.imp_left hgrows.isPointer)
  · obtain ⟨v, hv, f, hf, hslots, hplaces⟩ :=
      hvisits.opened (wellFormed_new options) hopens (hnew _)
    refine ⟨v, p.storedAt_eq d.anchor ▸ hv, f, hgrows.function? hf, ?_⟩
    rw [List.forall₂_iff_zip] at hslots ⊢
    refine ⟨hslots.1, fun {i slot} he => ?_⟩
    obtain ⟨x, rfl, -, hbound⟩ := hslots.2 he
    refine ⟨x, rfl, fun q hq => ⟨?_, fun hflagged => p.wild_of_bounded (hbound q hq hflagged)⟩⟩
    rw [p.storedAt_eq]
    exact hplaces _ he q hq x ((VarSet.mem_singleton x x).2 rfl)
  · rw [p.storedAt_eq] at hv
    exact p.wild_of_bounded (hvisits.bounded (hnew anchor) hall hv)

def headerParameter (inMacro : Bool) : Decl :=
  ⟨"p", ⟨"h.h", 1, 22⟩, inMacro, .param (.pointer .int) (some 1) none⟩

def headerFunction : Decl :=
  ⟨"f", ⟨"h.h", 1, 13⟩, false, .function ⟨.int, [.pointer .int], false, true⟩ [0] false (some [])⟩

def headerVariable (inMacro : Bool) : Decl :=
  ⟨"g", ⟨"h.h", 2, 13⟩, inMacro, .var (.pointer .int) false none none⟩

/-- A unit that includes the header and sees the parameter, the variable or both in a macro. -/
def includingUnit (id : Nat) (file : String) (parameter variable' : Bool) : TranslationUnit :=
  { id := id
    file := file
    decls := #[headerParameter parameter, headerFunction, headerVariable variable']
    exprs := #[]
    topLevel := [1, 2] }

theorem declarators_includingUnit (id : Nat) (file : String) (parameter variable' : Bool) :
    (includingUnit id file parameter variable').declarators = .ok [1, 2] := by
  simp [TranslationUnit.declarators, TranslationUnit.decl, includingUnit, headerFunction,
    headerVariable, Decl.unblocked, Decl.body?, Stmt.unblocked]
  rfl

def includingUnits (first second : Bool × Bool) : List TranslationUnit :=
  [includingUnit 0 "a.c" first.1 first.2, includingUnit 1 "b.c" second.1 second.2]

/-- The first unit sees the parameter in a macro, the second the variable. Both end up wild. -/
theorem analyse_forces_macros_header :
    ∃ outcome s,
      (analyse (includingUnits (true, false) (false, true))).Ends (.new .default) outcome s ∧
      (∃ x ∈ s.storedAt (headerParameter true).anchor,
        s.arena.All (fun a => outcome.settled.sol.category a = .wild) x) ∧
      ∀ v ∈ s.storedAt (headerVariable true).anchor,
        s.arena.All (fun a => outcome.settled.sol.category a = .wild) v := by
  let units := includingUnits (true, false) (false, true)
  obtain ⟨outcome, s, h, hlook⟩ := exists_ends (x := analyse units) (s := .new .default)
    (g := fun _ s => (s.storedAt (headerVariable true).anchor).members.all s.arena.isPointer)
    (b := true) (by decide +kernel)
  obtain ⟨hflagged, hopened, -⟩ := analyse_forces_macros h
  have horder : visitOrder units = [(includingUnit 0 "a.c" true false, 1),
      (includingUnit 0 "a.c" true false, 2), (includingUnit 1 "b.c" false true, 1),
      (includingUnit 1 "b.c" false true, 2)] := by
    simp [visitOrder, units, includingUnits, declarators_includingUnit, Except.toOption]
  refine ⟨outcome, s, h, ?_, fun v hv => ?_⟩
  · obtain ⟨v, -, f, -, hslots⟩ := hopened (includingUnit 0 "a.c" true false) 1 headerFunction
      ⟨rfl, rfl, [], _, horder, by simp⟩
    obtain ⟨_, _, ⟨x, -, hx⟩, -⟩ := List.forall₂_cons_left_iff (a := 0) (l := []).1 hslots
    obtain ⟨hplace, hwild⟩ := hx (headerParameter true) rfl
    exact ⟨x, hplace, hwild rfl⟩
  · have hdeclares : Declares units (includingUnit 1 "b.c" false true) 2 (headerVariable true) :=
      ⟨by simp [units, includingUnits], [1, 2], declarators_includingUnit _ _ _ _, by simp, rfl⟩
    have hsuits : (headerVariable true).Suits s.arena v :=
      ⟨_, rfl, .inr ⟨.inl rfl, List.all_eq_true.1 hlook v hv⟩⟩
    refine ((hflagged _ 2 _ hdeclares rfl ⟨_, rfl, .inr (.inl rfl)⟩).2 rfl v hv hsuits).resolve_right
      ?_
    rintro ⟨-, p, ⟨u, id, d, hopens, i, hi, hp⟩, hanchor, -⟩
    obtain ⟨before, after, hsplit, -⟩ := hopens.first
    have hmem : (u, id) ∈ visitOrder units := hsplit ▸ List.mem_append_right _ List.mem_cons_self
    have hd := hopens.decl
    -- the only parameter stands elsewhere
    simp only [horder, List.mem_cons, Prod.mk.injEq, List.not_mem_nil, or_false] at hmem
    rcases hmem with ⟨rfl, rfl⟩ | ⟨rfl, rfl⟩ | ⟨rfl, rfl⟩ | ⟨rfl, rfl⟩ <;>
      obtain rfl := Except.ok.inj hd
    · obtain rfl := List.mem_singleton.1 hi
      obtain rfl := Except.ok.inj hp
      exact absurd hanchor (by decide)
    · exact absurd hi List.not_mem_nil
    · obtain rfl := List.mem_singleton.1 hi
      obtain rfl := Except.ok.inj hp
      exact absurd hanchor (by decide)
    · exact absurd hi List.not_mem_nil

/-- The second unit alone sees the parameter in a macro. It is a pointer that stays safe. -/
theorem analyse_spares_macro :
    ∃ outcome s,
      (analyse (includingUnits (false, false) (true, false))).Ends (.new .default) outcome s ∧
      Declares (includingUnits (false, false) (true, false)) (includingUnit 1 "b.c" true false) 1
        headerFunction ∧
      (includingUnit 1 "b.c" true false).Lists headerFunction (headerParameter true) ∧
      (headerParameter true).inMacro ∧
      ∃ v ∈ s.storedAt (headerParameter true).anchor, s.arena.isPointer v ∧
        ¬ s.arena.All (fun a => outcome.settled.sol.category a = .wild) v := by
  obtain ⟨outcome, s, h, hlook⟩ := exists_ends
    (x := analyse (includingUnits (false, false) (true, false))) (s := .new .default)
    (g := fun o s => decide (1 ∈ s.storedAt (headerParameter true).anchor) &&
      s.arena.isPointer 1 && (s.arena.atoms? 1).map (·.map o.settled.sol.category) = some [.ptr])
    (b := true) (by decide +kernel)
  simp only [Bool.and_eq_true, decide_eq_true_eq] at hlook
  obtain ⟨⟨hplace, hptr⟩, hsafe⟩ := hlook
  refine ⟨outcome, s, h, ⟨by simp [includingUnits], [1, 2], declarators_includingUnit _ _ _ _,
    by simp, rfl⟩, ⟨0, List.mem_singleton.2 rfl, rfl⟩, rfl, 1, hplace, hptr, ?_⟩
  rintro ⟨atoms, hatoms, hwild⟩
  rw [hatoms, Option.map_some, Option.some.injEq] at hsafe
  obtain ⟨a, ha, hsafe⟩ := List.mem_map.1 (hsafe ▸ List.mem_singleton.2 rfl :
    Category.ptr ∈ atoms.map outcome.settled.sol.category)
  exact absurd ((hwild a ha).symm.trans hsafe) (by decide)

end Session

end CheckedPointers
