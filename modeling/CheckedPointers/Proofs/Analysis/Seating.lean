import CheckedPointers.Proofs.Analysis.Macros
import CheckedPointers.Proofs.Session.Keeping
import CheckedPointers.Proofs.Source.Listing
import Mathlib.Data.List.Sort

/-!
Where the variables of functions stand after indexing. The first unit that declares a function seats
it: its variable alone stands where the function is declared, and its slots where the parameters
are. Nobody else is put there, by whatever units come after, unless a parameter of another function
stands there too.
-/
namespace CheckedPointers

open Op TranslationUnit

/-! ## Sets in ascending order -/

namespace VarSet

variable {s t : VarSet} {v : VarId}

def Ascending (s : VarSet) : Prop := s.members.Pairwise (· < ·)

theorem ascending_empty : empty.Ascending := .nil

theorem ascending_singleton (v : VarId) : (singleton v).Ascending := List.pairwise_singleton _ v

/-- A variable put into an ascending list leaves it ascending. -/
theorem Ascending.insert (h : s.Ascending) (v : VarId) : (s.insert v).Ascending := by
  obtain ⟨members⟩ := s
  change (insertMember v members).Pairwise (· < ·)
  induction members with
  | nil => exact List.pairwise_singleton _ v
  | cons w rest ih =>
    obtain ⟨hw, hrest⟩ := List.pairwise_cons.1 h
    rw [insertMember]
    split
    · next hlt =>
      refine List.pairwise_cons.2 ⟨fun x hx => ?_, h⟩
      rcases List.mem_cons.1 hx with rfl | hx
      · exact hlt
      · exact Nat.lt_trans hlt (hw x hx)
    split
    · exact h
    · next hnlt hne =>
      refine List.pairwise_cons.2 ⟨fun x hx => ?_, ih hrest⟩
      rcases (mem_insertMember v x rest).1 hx with rfl | hx
      · exact Nat.lt_of_le_of_ne (Nat.le_of_not_lt hnlt) (Ne.symm hne)
      · exact hw x hx

theorem Ascending.insertAll (h : s.Ascending) (vs : List VarId) : (s.insertAll vs).Ascending := by
  induction vs generalizing s with
  | nil => exact h
  | cons v rest ih => exact ih (h.insert v)

/-- An ascending set is known by its members. -/
theorem Ascending.ext (hs : s.Ascending) (ht : t.Ascending) (h : ∀ v, v ∈ s ↔ v ∈ t) : s = t := by
  obtain ⟨l⟩ := s
  obtain ⟨l'⟩ := t
  exact congrArg mk (List.Pairwise.eq_of_mem_iff hs ht h)

end VarSet

namespace Session

variable {s t w : Session} {u : TranslationUnit} {units : List TranslationUnit} {options : Options}
  {id : DeclId} {d : Decl} {site : Site} {v : VarId} {g : FunctionVariable}
  {P : Anchor → VarId → Prop}

/-- The sets of variables that stand at anchors are in ascending order. -/
theorem Reachable.ascending (h : Reachable options s) (anchor : Anchor) :
    (s.storedAt anchor).Ascending := by
  have hall : ∀ anchor, (s.storedAt anchor).Ascending := by
    apply h.keeps (P := fun s => ∀ anchor, (s.storedAt anchor).Ascending)
    · exact fun _ => VarSet.ascending_empty
    · intro s t _ hst hall anchor
      cases hst.step with
      | stores a _ =>
        rw [storedAt_insert]
        split
        · exact (hall a).insertAll _
        · exact hall anchor
      | visits h =>
        cases h with
        | looks h =>
          cases h with
          | builds h =>
            rw [h.only]
            exact hall anchor
          | signs | derives | bottoms | quotes | guesses => exact hall anchor
        | records h =>
          rw [h.only]
          exact hall anchor
        | collects => exact hall anchor
      | _ => exact hall anchor
    · exact fun _ hall => hall
  exact hall anchor

/-! ## Seats -/

/-- Nothing stands where only the function or its parameters are declared. -/
def Bare (units : List TranslationUnit) (s : Session) (site : Site) : Prop :=
  ∀ a, site.Covers a → Owns units site a → ∀ x, x ∉ s.storedAt a

/-- Where the function is declared stands its variable, and where a parameter is declared stands its
slot. Nothing else does where only this function is declared, or only its parameters are. -/
structure Seated (units : List TranslationUnit) (s : Session) (site : Site) (v : VarId)
    (g : FunctionVariable) : Prop where
  function : s.arena.function? v = some g
  stands : v ∈ s.storedAt site.anchor
  alone : Owns units site site.anchor → ∀ x ∈ s.storedAt site.anchor, x = v
  length : g.params.length = site.params.length
  slots : ∀ (i : Nat) (a : Anchor), site.params[i]? = some (some a) →
    ∃ p, g.params[i]? = some (.singleton p) ∧ p ∈ s.storedAt a ∧
      (Owns units site a → ∀ x ∈ s.storedAt a, x = p)

/-- Every function that the units declare is seated, or its seats are still free. -/
def Tidy (units : List TranslationUnit) (s : Session) : Prop :=
  ∀ site, Sites units site → Bare units s site ∨ ∃ v g, Seated units s site v g

/-- What is done elsewhere leaves the seats as they are. -/
theorem seats_same (harena : s.arena.Grows t.arena)
    (hkept : ∀ a, ∀ x ∈ s.storedAt a, x ∈ t.storedAt a)
    (hstored : ∀ a, site.Covers a → Owns units site a → ∀ x ∈ t.storedAt a, x ∈ s.storedAt a)
    (h : Bare units s site ∨ ∃ v g, Seated units s site v g) :
    Bare units t site ∨ ∃ v g, Seated units t site v g := by
  rcases h with hbare | ⟨v, g, hseated⟩
  · exact .inl fun a ha hown x hx => hbare a ha hown x (hstored a ha hown x hx)
  refine .inr ⟨v, g, harena.function? hseated.function, hkept _ v hseated.stands, ?_,
    hseated.length, ?_⟩
  · exact fun hown x hx => hseated.alone hown x (hstored site.anchor (.inl rfl) hown x hx)
  · intro i a ha
    obtain ⟨p, hp, hmem, halone⟩ := hseated.slots i a ha
    exact ⟨p, hp, hkept a p hmem, fun hown x hx =>
      halone hown x (hstored a (.inr (List.mem_of_getElem? ha)) hown x hx)⟩

theorem Tidy.idles (h : s.Tidy units) (hst : s.Idles t) : t.Tidy units := by
  have hstored : ∀ a, t.storedAt a = s.storedAt a := fun a => by rw [storedAt, hst.index, storedAt]
  refine fun site hsite => seats_same hst.indexes.arena (fun a x hx => ?_) (fun a _ _ x hx => ?_)
    (h site hsite)
  · rwa [hstored]
  · rwa [hstored] at hx

/-- What is put away from a site leaves its seats as they are. -/
theorem seats_puts (hst : s.Puts t P)
    (hclear : ∀ a, site.Covers a → Owns units site a → ∀ x, ¬ P a x)
    (h : Bare units s site ∨ ∃ v g, Seated units s site v g) :
    Bare units t site ∨ ∃ v g, Seated units t site v g :=
  seats_same (hst.arena ▸ .refl _) (fun a x hx => (hst.mem_storedAt a x).2 (.inl hx))
    (fun a ha hown x hx => ((hst.mem_storedAt a x).1 hx).resolve_right (hclear a ha hown x)) h

/-- Where no function stands, none is seated. -/
theorem bare_of_vacant (h : Bare units s site ∨ ∃ v g, Seated units s site v g)
    (hvacant : s.Vacant site.anchor) : Bare units s site := by
  rcases h with hbare | ⟨v, g, hseated⟩
  · exact hbare
  · exact absurd (Arena.isFunction_iff.2 ⟨g, hseated.function⟩) (hvacant v hseated.stands)

section Functions

variable (hlisting : Listing units) (hu : u ∈ units) (hd : u.decl id = .ok d)

include hlisting hu hd

/-- A function that is put where all seats are free is seated. -/
theorem seated_of_puts (hfun : d.isFunction) {made : Session} (hbare : Bare units made (u.siteOf d))
    (hg : made.arena.function? v = some g) (hslots : List.Forall₂ (SlotOf u made) d.params g.params)
    (hputs : made.Puts t fun a x => a = d.anchor ∧ x = v ∨ PutsSlots u d g a x) :
    Seated units t (u.siteOf d) v g := by
  have hparam : ∀ a, some a ∈ u.paramAnchors d → a ≠ d.anchor := by
    rintro a ha rfl
    exact Decl.not_isParam_of_isFunction hfun (hlisting.isParam_of_anchor hu hu hd ha hd rfl)
  constructor
  · rw [hputs.arena, hg]
  · exact (hputs.mem_storedAt _ v).2 (.inr (.inl ⟨rfl, rfl⟩))
  · intro hown x hx
    rcases (hputs.mem_storedAt _ x).1 hx with hold | ⟨-, rfl⟩ | ⟨e, he, p, hp, hanchor, -⟩
    · exact absurd hold (hbare _ (.inl rfl) hown x)
    · rfl
    · exact absurd hanchor (hparam p.anchor
        (mem_paramAnchors.2 ⟨e.1, (List.of_mem_zip he).1, p, hp, rfl⟩))
  · simp [siteOf, paramAnchors, hslots.length_eq]
  · intro i a ha
    obtain ⟨p, hp, e, he, rfl⟩ := getElem?_paramAnchors.1 ha
    have hlt : i < g.params.length := by
      rw [← hslots.length_eq]
      exact (List.getElem?_eq_some_iff.1 hp).1
    have hslot : g.params[i]? = some g.params[i] := List.getElem?_eq_getElem hlt
    have hzip : (p, g.params[i]) ∈ d.params.zip g.params := by
      apply List.mem_of_getElem? (i := i)
      rw [List.getElem?_zip_eq_some]
      exact ⟨hp, hslot⟩
    obtain ⟨x, hx, -⟩ := (List.forall₂_iff_zip.1 hslots).2 hzip
    rw [hx] at hslot hzip
    refine ⟨x, hslot, (hputs.mem_storedAt _ x).2 (.inr (.inr ⟨_, hzip, e, he, rfl, ?_⟩)), ?_⟩
    · exact (VarSet.mem_singleton x x).2 rfl
    intro hown y hy
    have hmem : some e.anchor ∈ u.paramAnchors d := List.mem_of_getElem? ha
    rcases (hputs.mem_storedAt _ y).1 hy with hold | ⟨hanchor, -⟩ | ⟨q, hq, e', he', hanchor, hy⟩
    · exact absurd hold (hbare _ (.inr hmem) hown y)
    · exact absurd hanchor (hparam _ hmem)
    · obtain ⟨q, slot⟩ := q
      obtain rfl := hlisting.eq_of_anchor hu he he' hanchor.symm
      -- a function lists a parameter once
      obtain ⟨j, hj⟩ := List.mem_iff_getElem?.1 hq
      rw [List.getElem?_zip_eq_some] at hj
      have hij : i = j := (List.getElem?_inj (List.getElem?_eq_some_iff.1 hp).1
        (hlisting.once u hu id d hd)).1 (hp.trans hj.1.symm)
      subst hij
      obtain rfl := Option.some.inj (hslot.symm.trans hj.2)
      exact (VarSet.mem_singleton x y).1 hy

/-- A function that is put where none stands is seated, and all others stay as they are. -/
theorem Tidy.putsFunction (h : s.Tidy units) (hst : PutsFunction u id d s t) : t.Tidy units := by
  obtain ⟨v, g, made, -, hmade, hg, hslots, hputs⟩ := hst.puts
  have hsite : Sites units (u.siteOf d) := ⟨u, hu, id, d, hd, hst.isFunction, rfl⟩
  have hmadeTidy : made.Tidy units := h.idles hmade.visits.toFollows.idles
  intro site hany
  by_cases hsame : site = u.siteOf d
  · subst hsame
    have hbare : Bare units made (u.siteOf d) := by
      intro a ha hown x
      rw [storedAt, hmade.visits.index]
      exact bare_of_vacant (h _ hsite) hst.vacant a ha hown x
    exact .inr ⟨v, g, seated_of_puts hlisting hu hd hst.isFunction hbare hg hslots hputs⟩
  · refine seats_puts hputs (fun a _ hown x hP => hsame ?_) (hmadeTidy site hany)
    refine (hown _ hsite ?_).symm
    rcases hP with ⟨rfl, -⟩ | ⟨e, he, p, hp, rfl, -⟩
    · exact .inl rfl
    · exact .inr (mem_paramAnchors.2 ⟨e.1, (List.of_mem_zip he).1, p, hp, rfl⟩)

end Functions

/-- A pointer that is put elsewhere leaves all functions as they are. -/
theorem Tidy.putsPointer {ty : CType} (hlisting : Listing units) (hu : u ∈ units)
    (hd : u.decl id = .ok d) (hfun : ¬ d.isFunction) (hparam : ¬ d.isParam) (h : s.Tidy units)
    (hst : PutsPointer d ty s t) : t.Tidy units := by
  obtain ⟨v, made, -, hmade, -, hputs⟩ := hst.puts
  intro site hsite
  refine seats_puts hputs ?_ (h.idles hmade.visits.toFollows.idles site hsite)
  rintro _ ha - x ⟨rfl, -⟩
  exact hlisting.not_covers hsite hu hd hfun hparam ha

/-! ## Indexing -/

/-- A visit of a declarator that is no parameter keeps all seats in order. -/
theorem giveVariables_tidy (hlisting : Listing units) (hu : u ∈ units)
    (hparam : ∀ d, u.decl id = .ok d → ¬ d.isParam) (h : s.Tidy units) :
    Meets .any (giveVariables u id) s fun _ t => t.Tidy units := by
  refine Meets.bind_requireOpen fun _ _ => Meets.bind_lift fun d hd => ?_
  split
  · next ty hdecl hty =>
    have hfunction := giveFunction_puts hd ty s
    refine Meets.bind (P := fun _ t => t.Tidy units) (hfunction.mono fun _ t _ hst => ?_)
      fun _ t _ ht => ?_
    · rcases hst with ⟨rfl, -⟩ | ⟨-, hst⟩
      · exact h
      · exact Tidy.putsFunction hlisting hu hd h hst
    refine Meets.bind (P := fun _ w => w.Tidy units)
      ((givePointer_puts d ty t).mono fun _ w _ htw => ?_) fun _ w _ hw => ?_
    · rcases htw with ⟨rfl, -⟩ | htw
      · exact ht
      · have hfun : ¬ d.isFunction := fun hfun => absurd (Decl.ty_isFunction_of_isFunction hfun hty)
          (CType.not_isFunction_of_isPointer htw.isPointer)
        exact ht.putsPointer hlisting hu hd hfun (hparam d hd) htw
    dsimp only
    split
    · refine Meets.bind_get ?_
      split
      · refine Meets.bind (P := fun _ z => z.Tidy units) (Meets.discard ?_)
          fun _ _ _ hz => Meets.pure hz
        refine ((boundSet_meets _ .leastSafe w).frame.widen fun _ _ => trivial).mono ?_
        exact fun _ z _ hwz => hw.idles hwz.1.creates.visits.toFollows.idles
      · exact Meets.pure hw
    · exact Meets.pure hw
  · exact Meets.pure h

/-- What every visit of a declarator keeps, and every note of a function, indexing keeps. -/
theorem indexAll_keeps {P : Session → Prop} {ids : List DeclId}
    (hgive : ∀ id ∈ ids, ∀ s, P s → Meets .any (giveVariables u id) s fun _ t => P t)
    (hnote : ∀ id s, P s → Meets .any (noteFunction u id) s fun _ t => P t) (hs : P s) :
    Meets .any (indexAll u ids) s fun _ t => P t := by
  induction ids generalizing s with
  | nil => exact Meets.pure hs
  | cons id rest ih =>
    obtain ⟨hfirst, hgive⟩ := List.forall_mem_cons.1 hgive
    refine Meets.bind (hfirst s hs) fun made t _ ht => Meets.bind_lift fun d _ => ?_
    have hrest : ∀ w, P w → Meets .any (do
        let others ← indexAll u rest
        return if made then id :: others else others) w fun _ z => P z := fun w hw =>
      Meets.bind (ih hgive hw) fun _ _ _ hz => Meets.pure hz
    dsimp only
    split
    · exact Meets.bind (hnote id t ht) fun _ w _ hw => hrest w hw
    · exact hrest t ht

theorem indexUnit_keeps {P : Session → Prop}
    (hgive : ∀ ids, u.declarators = .ok ids → ∀ id ∈ ids, ∀ s, P s →
      Meets .any (giveVariables u id) s fun _ t => P t)
    (hnote : ∀ id s, P s → Meets .any (noteFunction u id) s fun _ t => P t)
    (henter : ∀ s, P s → Meets .any (enter u) s fun _ t => P t)
    (hexit : ∀ s, P s → Meets .any exit s fun _ t => P t) (hs : P s) :
    Meets .any (indexUnit u) s fun _ t => P t := by
  refine Meets.bind (henter s hs) fun _ t _ ht => Meets.bind_lift fun ids hids => ?_
  refine Meets.bind (indexAll_keeps (hgive ids hids) hnote ht) fun _ w _ hw => ?_
  exact Meets.bind (hexit w hw) fun _ _ _ hz => Meets.pure hz

/-- What idle operations keep, indexing keeps if giving variables does. -/
theorem indexUnit_keeps_idle {P : Session → Prop}
    (hgive : ∀ ids, u.declarators = .ok ids → ∀ id ∈ ids, ∀ s, P s →
      Meets .any (giveVariables u id) s fun _ t => P t)
    (hidle : ∀ s t, P s → s.Idles t → P t) (hs : P s) :
    Meets .any (indexUnit u) s fun _ t => P t := by
  apply indexUnit_keeps hgive
  · exact fun id s hs => ((noteFunction_idles u id s).widen fun _ _ => trivial).mono
      fun _ t _ hst => hidle s t hs hst
  · exact fun s hs => ((enter_meets u s).frame.widen fun _ _ => trivial).mono
      fun _ t _ hst => hidle s t hs hst.1.idles
  · exact fun s hs => ((exit_meets s).frame.widen fun _ _ => trivial).mono
      fun _ t _ hst => hidle s t hs hst.1.idles
  · exact hs

/-- Beside giving variables, indexing notes functions and opens and closes the unit. -/
theorem indexUnit_keeps_tables {P : Session → Prop}
    (hgive : ∀ ids, u.declarators = .ok ids → ∀ id ∈ ids, ∀ s, P s →
      Meets .any (giveVariables u id) s fun _ t => P t)
    (hnoted : ∀ s d, P s → s.Indexes (s.noted d) → P (s.noted d))
    (hopened : ∀ (s : Session) o, P s → s.Indexes { s with opened := o } →
      P { s with opened := o }) (hs : P s) : Meets .any (indexUnit u) s fun _ t => P t := by
  apply indexUnit_keeps hgive
  · intro id s hs
    refine ((noteFunction_noted u id s).both (noteFunction_meets u id s)).mono ?_
    intro _ t _ hnote
    obtain ⟨d, -, rfl⟩ := hnote.1
    have hst : s.Indexes _ := hnote.2.1
    split
    · next hglobal =>
      rw [if_pos hglobal] at hst
      exact hnoted s d hs hst
    · exact hs
  · intro s hs
    refine ((enter_meets u s).frame.widen fun _ _ => trivial).mono ?_
    intro _ t _ hentered
    have hst : s.Follows t := hentered.1
    obtain rfl := hentered.2
    exact hopened s _ hs hst.indexes
  · intro s hs
    refine ((exit_meets s).frame.widen fun _ _ => trivial).mono ?_
    intro _ t _ hleft
    have hst : s.Follows t := hleft.1
    obtain rfl := hleft.2
    exact hopened s _ hs hst.indexes
  · exact hs

/-- An operation that is a request leaves a reachable session. -/
theorem Reachable.meets {α : Type} {x : Op α} (h : Reachable options s) {r : Request}
    (hr : ∀ a t, x.Ends s a t → r.run.Ends s ⟨⟩ t) :
    Meets .any x s fun _ t => Reachable options t := by
  unfold Meets
  rcases hx : x s with ⟨(_ | _) | a, t⟩
  · trivial
  · trivial
  · exact ⟨trivial, h.ended (hr a t hx)⟩

/-- To index a unit is to make requests. -/
theorem Reachable.indexUnit (hs : Reachable options s) (u : TranslationUnit) :
    Meets .any (indexUnit u) s fun _ t => Reachable options t := by
  apply indexUnit_keeps
  · exact fun _ _ id _ s hs => hs.meets (r := .giveVariables u id)
      fun b _ hends => ends_discard.2 ⟨b, hends⟩
  · exact fun id s hs => hs.meets (r := .noteFunction u id) fun _ _ hends => hends
  · exact fun s hs => hs.meets (r := .enter u) fun _ _ hends => hends
  · exact fun s hs => hs.meets (r := .exit) fun _ _ hends => hends
  · exact hs

theorem indexUnit_tidy (hlisting : Listing units) (hu : u ∈ units) (hs : s.Tidy units) :
    Meets .any (indexUnit u) s fun _ t => t.Tidy units :=
  indexUnit_keeps_idle (fun ids hids id hid _ hs =>
    giveVariables_tidy hlisting hu (hlisting.unlisted u hu ids hids id hid) hs)
    (fun _ _ hs hst => hs.idles hst) hs

end Session

def Frame.sameIndex : Frame :=
  ⟨fun s t => t.index = s.index, fun _ => rfl, fun h h' => h'.trans h⟩

namespace Session

variable {s t : Session} {u : TranslationUnit} {units done : List TranslationUnit}
  {options : Options} {id : DeclId} {d : Decl}

def Request.isGiving : Request → Bool
  | giveVariables .. => true
  | _ => false

theorem noteFunction_sameIndex (u : TranslationUnit) (func : DeclId) (s : Session) :
    Meets .sameIndex (noteFunction u func) s fun _ _ => True := by
  refine Meets.bind_requireOpen fun _ _ => Meets.bind_lift fun d _ => ?_
  split
  · refine Meets.bind (Meets.modify (Q := fun _ _ => True) rfl trivial) fun _ _ _ _ => ?_
    refine Meets.bind_get ?_
    dsimp only
    split
    · exact Meets.modify rfl trivial
    · exact Meets.pure trivial
  · exact Meets.pure trivial

/-- Only what gives variables puts any at an anchor. -/
theorem Request.idles {r : Request} {b : Bool} (hr : ¬ r.isGiving) (hs : s.WellFormed)
    (h : (attempt r.run).Ends s b t) : s.Idles t := by
  by_cases hvisit : r.isVisit
  · exact (visits_of_visiting ((r.run_visiting hvisit).attempt.of_ends h) hs).toFollows.idles
  have hrun : Meets .sameIndex r.run s fun _ _ => True := by
    cases r with
    | enter u => exact (enter_meets u s).any.widen fun _ hst => Follows.index hst
    | exit => exact (exit_meets s).any.widen fun _ hst => Follows.index hst
    | giveVariables => exact absurd rfl hr
    | noteFunction u func => exact noteFunction_sameIndex u func s
    | freshAtom =>
      exact Meets.discard ((freshAtom_meets s).any.widen
        fun t (hst : s.Creates t) => hst.visits.index)
    | addConstraint c =>
      exact Meets.discard ((addConstraint_meets c s).any.widen
        fun t (hst : s.Records t) => hst.creates.visits.index)
    | _ => exact absurd rfl hvisit
  exact ⟨r.indexes hs h, hrun.rel_of_attempt h⟩

/-- The session has indexed those units, one after another. What was asked of it besides gave no
variables to declarators. -/
inductive HasIndexed (options : Options) : List TranslationUnit → Session → Prop where
  | new : HasIndexed options [] (new options)
  | unit {done : List TranslationUnit} {u : TranslationUnit} {s t : Session} {made : List DeclId}
      (h : HasIndexed options done s) (hends : (indexUnit u).Ends s made t) :
      HasIndexed options (done ++ [u]) t
  | request {done : List TranslationUnit} {s t : Session} {b : Bool} (r : Request)
      (hr : ¬ r.isGiving) (h : HasIndexed options done s) (hends : (attempt r.run).Ends s b t) :
      HasIndexed options done t

namespace HasIndexed

theorem reachable (h : HasIndexed options done s) : Reachable options s := by
  induction h with
  | new => exact .new
  | unit _ hends ih => exact ((ih.indexUnit _).of_ends hends).2
  | request r _ _ hends ih => exact ih.request r hends

/-- The units can be indexed all at once. -/
theorem all (h : HasIndexed options done s) (hends : (indexUnits units).Ends s ⟨⟩ t) :
    HasIndexed options (done ++ units) t := by
  induction units generalizing done s with
  | nil =>
    obtain ⟨-, rfl⟩ := ends_pure.1 hends
    rwa [List.append_nil]
  | cons u rest ih =>
    obtain ⟨_, w, hfirst, hrest⟩ := ends_bind.1 hends
    obtain ⟨made, hfirst⟩ := ends_discard.1 hfirst
    rw [List.append_cons]
    exact ih (h.unit hfirst) hrest

/-- Where a declarator asks for a variable, one of its kind stands. -/
theorem suits (h : HasIndexed options done s) {ids : List DeclId} (hu : u ∈ done)
    (hids : u.declarators = .ok ids) (hid : id ∈ ids) (hd : u.decl id = .ok d)
    (hdecl : d.isDeclarator) (hasks : d.AsksVariable) :
    ∃ v ∈ s.storedAt d.anchor, d.Suits s.arena v := by
  induction h with
  | new => cases hu
  | @unit done w s t made h hends ih =>
    obtain ⟨hst, hvisits⟩ := (indexUnit_placements w h.reachable.wellFormed).of_ends hends
    have hst : s.Indexes t := hst
    rcases List.mem_append.1 hu with hu | hu
    · obtain ⟨v, hv, hsuits⟩ := ih hu
      exact ⟨v, hst.index _ v hv, hsuits.grows hst.arena⟩
    · exact hvisits.stands (mem_visitOrder hu hids hid) hd hdecl hasks
  | request r hr h hends ih =>
    obtain ⟨v, hv, hsuits⟩ := ih hu
    have hst := (Request.idles hr h.reachable.wellFormed hends).indexes
    exact ⟨v, hst.index _ v hv, hsuits.grows hst.arena⟩

/-- Something stands where a function of the units is declared. -/
theorem stands (h : HasIndexed options done s) (hlisting : Listing done) (hu : u ∈ done)
    (hd : u.decl id = .ok d) (hfun : d.isFunction) : ∃ v, v ∈ s.storedAt d.anchor := by
  obtain ⟨ids, hids, hid⟩ := hlisting.declared u hu id ⟨d, hd, hfun⟩
  obtain ⟨hdecl, ty, hty⟩ := Decl.isDeclarator_of_isFunction hfun
  have hasks : d.AsksVariable := ⟨ty, hty, .inl (Decl.ty_isFunction_of_isFunction hfun hty)⟩
  obtain ⟨v, hv, -⟩ := h.suits hu hids hid hd hdecl hasks
  exact ⟨v, hv⟩

/-- After indexing, every function of the units is seated or its seats are still free. -/
theorem tidy (h : HasIndexed options done s) (hlisting : Listing units)
    (hdone : ∀ u ∈ done, u ∈ units) : s.Tidy units := by
  induction h with
  | new => exact fun _ _ => .inl fun _ _ _ x => VarSet.not_mem_empty x
  | unit _ hends ih =>
    obtain ⟨hdone, hu⟩ := List.forall_mem_append.1 hdone
    have htidy := indexUnit_tidy hlisting (hu _ List.mem_cons_self) (ih hdone)
    exact (htidy.of_ends hends).2
  | request r hr h hends ih =>
    exact (ih hdone).idles (Request.idles hr h.reachable.wellFormed hends)

/-- After indexing every function is seated. -/
theorem seated (h : HasIndexed options units s) (hlisting : Listing units) (hu : u ∈ units)
    (hd : u.decl id = .ok d) (hfun : d.isFunction) : ∃ v g, Seated units s (u.siteOf d) v g := by
  have htidy := h.tidy hlisting fun _ hu => hu
  refine (htidy _ ⟨u, hu, id, d, hd, hfun, rfl⟩).resolve_left fun hbare => ?_
  obtain ⟨v, hv⟩ := h.stands hlisting hu hd hfun
  exact hbare d.anchor (.inl rfl) (hlisting.owns_anchor hu hd hfun) v hv

end HasIndexed

end Session

end CheckedPointers
