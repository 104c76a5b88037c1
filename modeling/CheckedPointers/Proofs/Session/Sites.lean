import CheckedPointers.Proofs.Session.Origins

/-!
What indexing a program leaves behind: where each function variable comes from, and for each name
that is declared globally whether some such declaration has a body, in whatever order they come.
-/
namespace CheckedPointers

open Op

namespace Session

variable {s t w : Session} {u : TranslationUnit} {id : DeclId} {ids : List DeclId}
  {units : List TranslationUnit} {P P' : Decl → Prop} {options : Options}

/-! ## Bodies seen -/

/-- Which names are noted, and of which a body was seen, is as the declarations `P` say. -/
structure ExternsOf (P : Decl → Prop) (s : Session) : Prop where
  sorted : s.externs.Sorted
  noted : ∀ name, (s.externs.find? name).isSome ↔ ∃ d, P d ∧ d.name = name
  body : ∀ name, s.externs.find? name = some true ↔ ∃ d, P d ∧ d.name = name ∧ d.hasBody

namespace ExternsOf

theorem new : ExternsOf (fun _ => False) (new options) where
  sorted := OrderedMap.sorted_empty
  noted name := by simp [Session.new]
  body name := by simp [Session.new]

theorem congr (h : ExternsOf P s) (hP : ∀ d, P d ↔ P' d) (hexterns : t.externs = s.externs) :
    ExternsOf P' t where
  sorted := hexterns ▸ h.sorted
  noted name := by simp only [hexterns, h.noted, hP]
  body name := by simp only [hexterns, h.body, hP]

/-- A body once seen stays seen. -/
theorem add (h : ExternsOf P s) (d : Decl) : ExternsOf (fun x => P x ∨ x = d) (s.noted d) where
  sorted := h.sorted.insert _ _
  noted name := by
    simp only [Session.noted, OrderedMap.find?_insert]
    split
    · next hname => exact ⟨fun _ => ⟨d, .inr rfl, hname.symm⟩, fun _ => rfl⟩
    · next hname =>
      rw [h.noted]
      constructor
      · rintro ⟨x, hx, rfl⟩
        exact ⟨x, .inl hx, rfl⟩
      · rintro ⟨x, hx | rfl, rfl⟩
        · exact ⟨x, hx, rfl⟩
        · exact absurd rfl hname
  body name := by
    have hold : (s.externs.find? name).getD false = true ↔
        ∃ x, P x ∧ x.name = name ∧ x.hasBody := by
      rw [← h.body]
      cases s.externs.find? name <;> simp
    simp only [Session.noted, OrderedMap.find?_insert]
    split
    · next hname =>
      subst hname
      simp only [Option.some.injEq, Bool.or_eq_true, hold]
      constructor
      · rintro (⟨x, hx, hrest⟩ | hbody)
        · exact ⟨x, .inl hx, hrest⟩
        · exact ⟨d, .inr rfl, rfl, hbody⟩
      · rintro ⟨x, hx | rfl, hrest⟩
        · exact .inl ⟨x, hx, hrest⟩
        · exact .inr hrest.2
    · next hname =>
      rw [h.body]
      constructor
      · rintro ⟨x, hx, hrest⟩
        exact ⟨x, .inl hx, hrest⟩
      · rintro ⟨x, hx | rfl, hrest⟩
        · exact ⟨x, hx, hrest⟩
        · exact absurd hrest.1.symm hname

end ExternsOf

/-! ## Indexing -/

/-- What indexing some declarations does: function variables come from them, and the global ones
among them are noted. -/
structure Traces (sites : TranslationUnit → DeclId → Decl → Prop) (s t : Session) : Prop where
  implicits : t.implicits = s.implicits
  origins : ∀ (all : TranslationUnit → DeclId → Decl → Prop) made,
    (∀ u id d, sites u id d → all u id d) → Origins all made s → ∃ made', Origins all made' t
  externs : ∀ P, ExternsOf P s →
    ExternsOf (fun d => P d ∨ ∃ u id, sites u id d ∧ d.isGlobalFunction) t

def sitesAt (u : TranslationUnit) (ids : List DeclId) (v : TranslationUnit) (id : DeclId)
    (d : Decl) : Prop := v = u ∧ id ∈ ids ∧ u.decl id = .ok d

theorem Traces.nothing {sites : TranslationUnit → DeclId → Decl → Prop}
    (h : ∀ u id d, ¬ sites u id d) : Traces sites s s where
  implicits := rfl
  origins all made _ horigins := ⟨made, horigins⟩
  externs P hP := hP.congr (fun d => by simp [h]) rfl

theorem Traces.congr {sites sites' : TranslationUnit → DeclId → Decl → Prop}
    (h : Traces sites s t) (hsites : ∀ u id d, sites u id d ↔ sites' u id d) :
    Traces sites' s t := by
  have he : sites = sites' := funext fun u => funext fun id => funext fun d =>
    propext (hsites u id d)
  exact he ▸ h

/-- Traces of some declarations and then of others are traces of all of them. -/
theorem Traces.trans {sites sites' sites'' : TranslationUnit → DeclId → Decl → Prop}
    (h : Traces sites s t) (h' : Traces sites' t w)
    (hsites : ∀ u id d, sites'' u id d ↔ sites u id d ∨ sites' u id d) :
    Traces sites'' s w where
  implicits := h'.implicits.trans h.implicits
  origins all made hall horigins := by
    obtain ⟨made', horigins'⟩ := h.origins all made
      (fun u id d hd => hall u id d ((hsites u id d).2 (.inl hd))) horigins
    exact h'.origins all made' (fun u id d hd => hall u id d ((hsites u id d).2 (.inr hd)))
      horigins'
  externs P hP := by
    refine (h'.externs _ (h.externs P hP)).congr (fun d => ?_) rfl
    simp only [hsites, or_and_right, exists_or, or_assoc]

/-- Giving one declarator its variables and noting it. -/
theorem Traces.of_gave {d : Decl} (hd : u.decl id = .ok d) (hs : s.WellFormed)
    (hst : s.Indexes t) (hsupplies : Frame.supplies.rel s t) (hgave : Gave u id s t) :
    Traces (sitesAt u [id]) s (if d.isGlobalFunction then t.noted d else t) := by
  have hglobals : t.globals = s.globals := by rw [hsupplies]
  have hexterns : t.externs = s.externs := by rw [hsupplies]
  have himplicits : t.implicits = s.implicits := by rw [hsupplies]
  have horigins : ∀ (all : TranslationUnit → DeclId → Decl → Prop) made, all u id d →
      Origins all made s → ∃ made', Origins all made' t := by
    intro all made hsite h
    rcases hgave with ⟨hadds, hpairing⟩ | ⟨v, d', hmakes⟩
    · exact ⟨made, h.adds hs hst hadds hpairing hglobals⟩
    · obtain rfl := Except.ok.inj (hmakes.decl.symm.trans hd)
      exact ⟨_, h.makes hs hst hmakes hglobals hsite⟩
  have hsite : sitesAt u [id] u id d := ⟨rfl, List.mem_singleton.2 rfl, hd⟩
  split
  · next hglobal =>
    refine ⟨himplicits, fun all made hall h => ?_, fun P hP => ?_⟩
    · obtain ⟨made', h'⟩ := horigins all made (hall u id d hsite) h
      exact ⟨made', h'.noted (hall u id d hsite) hglobal⟩
    · refine ((hP.congr (fun _ => Iff.rfl) hexterns).add d).congr (fun x => ?_) rfl
      refine or_congr_right ⟨?_, ?_⟩
      · rintro rfl
        exact ⟨u, id, hsite, hglobal⟩
      · rintro ⟨v, i, ⟨rfl, hi, hx⟩, -⟩
        rw [List.mem_singleton.1 hi] at hx
        exact Except.ok.inj (hx.symm.trans hd)
  · next hlocal =>
    refine ⟨himplicits, fun all made hall => horigins all made (hall u id d hsite), fun P hP => ?_⟩
    refine hP.congr (fun x => ⟨.inl, ?_⟩) hexterns
    rintro (hx | ⟨v, i, ⟨rfl, hi, hx⟩, hglobal⟩)
    · exact hx
    · rw [List.mem_singleton.1 hi] at hx
      rw [Except.ok.inj (hx.symm.trans hd)] at hglobal
      exact absurd hglobal hlocal

/-- Indexing leaves traces of the functions among the declarators, and of nothing else. -/
theorem indexAll_traces (u : TranslationUnit) (ids : List DeclId) (hs : s.WellFormed) :
    Meets .indexes (indexAll u ids) s fun _ t => Traces (sitesAt u ids) s t := by
  induction ids generalizing s with
  | nil => exact Meets.pure (.nothing fun v id d h => absurd h.2.1 List.not_mem_nil)
  | cons id rest ih =>
    refine Meets.bind ((giveVariables_meets u id hs).frame.both (giveVariables_gave u id hs).frame)
      fun made t _ ⟨⟨hst, _⟩, _, hsupplies, hgave⟩ => Meets.bind_lift fun d hd => ?_
    have ht := hst.wellFormed hs
    have hfirst := Traces.of_gave hd hs hst hsupplies hgave
    have hrest : ∀ w, w = (if d.isGlobalFunction then t.noted d else t) → w.WellFormed →
        Meets .indexes (do
          let others ← indexAll u rest
          return if made then id :: others else others) w fun _ z =>
            Traces (sitesAt u (id :: rest)) s z := by
      intro w hw hwf
      refine Meets.bind (ih hwf) fun _ z _ hothers => Meets.pure ?_
      refine (hw ▸ hfirst).trans hothers fun v i x => ?_
      simp only [sitesAt, List.mem_cons, List.not_mem_nil, or_false]
      tauto
    dsimp only
    split
    · refine Meets.bind ((noteFunction_meets u id t).frame.both (noteFunction_noted u id t))
        fun _ w _ ⟨⟨htw, _⟩, _, d', hd', hw⟩ => ?_
      obtain rfl := Except.ok.inj (hd'.symm.trans hd)
      exact hrest w hw (htw.wellFormed ht)
    · next hno =>
      refine hrest t ?_ ht
      rw [if_neg fun hglobal => hno (Decl.isFunction_of_isGlobalFunction hglobal)]

def Declares (units : List TranslationUnit) (u : TranslationUnit) (id : DeclId) (d : Decl) : Prop :=
  u ∈ units ∧ ∃ ids, u.declarators = .ok ids ∧ id ∈ ids ∧ u.decl id = .ok d

theorem isGlobal_iff {d : Decl} :
    IsGlobal units d ↔ ∃ u id, Declares units u id d ∧ d.isGlobalFunction := by
  constructor
  · rintro ⟨u, hu, ids, hids, id, hid, hd, hglobal⟩
    exact ⟨u, id, ⟨hu, ids, hids, hid, hd⟩, hglobal⟩
  · rintro ⟨u, id, ⟨hu, ids, hids, hid, hd⟩, hglobal⟩
    exact ⟨u, hu, ids, hids, id, hid, hd, hglobal⟩

/-- Opening and closing a unit index nothing. -/
theorem Traces.frame {sites : TranslationUnit → DeclId → Decl → Prop} {s' t' : Session}
    {o o' : Option OpenUnit} (h : Traces sites s' t') (hs : s' = { s with opened := o })
    (ht : t = { t' with opened := o' }) : Traces sites s t where
  implicits := by rw [ht, ← show s'.implicits = s.implicits by rw [hs]]; exact h.implicits
  origins all made hall horigins := by
    have hs' : Origins all made s' := by
      subst hs
      exact { horigins with }
    obtain ⟨made', h'⟩ := h.origins all made hall hs'
    subst ht
    exact ⟨made', { h' with }⟩
  externs P hP := by
    refine (h.externs P (hP.congr (fun _ => Iff.rfl) ?_)).congr (fun _ => Iff.rfl) ?_
    · rw [hs]
    · rw [ht]

/-- A whole unit leaves the traces of its declarators. -/
theorem indexUnit_traces (u : TranslationUnit) (hs : s.WellFormed) :
    Meets .indexes (indexUnit u) s fun _ t => Traces (Declares [u]) s t := by
  refine Meets.bind (enter_meets u s).frame.to_indexes fun _ t _ ⟨hst, ht⟩ => ?_
  refine Meets.bind_lift fun ids hids => ?_
  refine Meets.bind (indexAll_traces u ids (hst.wellFormed hs)) fun _ w _ htraces => ?_
  refine Meets.bind (exit_meets w).to_indexes fun _ z _ hz => Meets.pure ?_
  refine (htraces.frame ht hz).congr fun v id d => ?_
  constructor
  · rintro ⟨rfl, hid, hd⟩
    exact ⟨List.mem_singleton.2 rfl, ids, hids, hid, hd⟩
  · rintro ⟨hv, ids', hids', hid, hd⟩
    obtain rfl := List.mem_singleton.1 hv
    obtain rfl := Except.ok.inj (hids'.symm.trans hids)
    exact ⟨rfl, hid, hd⟩

/-- Once all units are indexed, every function variable comes from one of their declarators, and
the bodies seen are those of their global functions. -/
theorem indexUnits_traces (units : List TranslationUnit) (hs : s.WellFormed) :
    Meets .indexes (units.forM fun u => discard (indexUnit u)) s fun _ t =>
      Traces (Declares units) s t := by
  induction units generalizing s with
  | nil => exact Meets.pure (.nothing fun u id d h => absurd h.1 List.not_mem_nil)
  | cons u rest ih =>
    have hfirst : Meets .indexes (discard (indexUnit u)) s fun _ t =>
        Traces (Declares [u]) s t := Meets.discard (indexUnit_traces u hs)
    change Meets .indexes
      (discard (indexUnit u) >>= fun _ => rest.forM fun u => discard (indexUnit u)) s _
    refine Meets.bind hfirst.frame fun _ t _ ⟨hst, htraces⟩ => ?_
    refine (ih (hst.wellFormed hs)).mono fun _ w _ hothers => htraces.trans hothers fun v id d => ?_
    simp [Declares, or_and_right]

end Session

end CheckedPointers
