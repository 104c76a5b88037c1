import CheckedPointers.Proofs.Source.Drafting

/-!
Where the declarations of a unit under construction stand. The column counts the declarations
before it on the same line of the same file, so what else is added does not move a declaration.
-/
namespace CheckedPointers

namespace Draft

/-- The declaration that a step adds while declarations are located in `file`, with its line. -/
def placed? (draft : Draft) (file : String) (c : Call) (added : Added) : Option (Nat × DeclId) :=
  match c.line?, added with
  | some line, .decl d => if draft.file = file then some (line, d) else none
  | _, _ => none

/-- The declarations that the steps of a run add in `file`, in order, each with the line that its
step names. -/
def addedIn (file : String) (draft : Draft) : List Call → List (Nat × DeclId)
  | [] => []
  | c :: rest =>
    match draft.step c with
    | .ok (next, added) => (draft.placed? file c added).toList ++ next.addedIn file rest
    | .error _ => draft.addedIn file rest

def anchors (draft : Draft) : List Anchor := draft.unit.decls.toList.map Decl.anchor

def onLine (draft : Draft) (file : String) (line : Nat) : Nat :=
  draft.anchors.countP fun a => a.file = file && a.line = line

variable {draft next : Draft} {file : String} {line k : Nat} {c : Call} {added : Added}
  {calls : List Call} {d : DeclId}

theorem nextAnchor_eq (draft : Draft) (line : Nat) :
    draft.nextAnchor line = ⟨draft.file, line, 1 + 4 * draft.onLine draft.file line⟩ := by
  rw [nextAnchor, onLine, anchors, List.countP_map, ← Array.countP_toList]
  rfl

theorem length_anchors (draft : Draft) : draft.anchors.length = draft.unit.decls.size := by
  simp [anchors]

theorem anchor_of_decl {decl : Decl} (h : draft.unit.decl d = .ok decl) :
    draft.anchors[d]? = some decl.anchor := by
  simp [anchors, TranslationUnit.decl_eq_ok.1 h]

theorem decl_of_anchor {a : Anchor} (h : draft.anchors[d]? = some a) :
    ∃ decl, draft.unit.decl d = .ok decl ∧ decl.anchor = a := by
  rw [anchors, List.getElem?_map, Array.getElem?_toList] at h
  obtain ⟨decl, hdecl, ha⟩ := Option.map_eq_some_iff.1 h
  exact ⟨decl, TranslationUnit.decl_eq_ok.2 hdecl, ha⟩

/-! ## One step -/

/-- Whatever else is changed of a declaration, it stays where it is. -/
theorem anchors_modifyDecl {f : Decl → Decl} (hf : ∀ decl, (f decl).anchor = decl.anchor)
    (draft : Draft) (d : DeclId) : (draft.modifyDecl d f).anchors = draft.anchors := by
  apply List.ext_getElem?
  intro i
  simp only [anchors, modifyDecl, List.getElem?_map, Array.getElem?_toList, Array.getElem?_modify]
  split
  · rw [Option.map_map]
    exact congrArg (draft.unit.decls[i]?.map ·) (funext hf)
  · rfl

theorem anchors_own (func : DeclId) (params : List DeclId) (draft : Draft) :
    (own func params draft).anchors = draft.anchors := by
  induction params generalizing draft with
  | nil => rfl
  | cons p rest ih =>
    exact (ih (draft.modifyDecl p (setOwner func))).trans
      (anchors_modifyDecl (setOwner_anchor func) draft p)

/-- A step that names a line adds a declaration there, and any other adds none. -/
theorem Step.anchors (h : draft.Step c next added) :
    next.anchors = draft.anchors ++ c.line?.toList.map draft.nextAnchor := by
  cases h with
  | declares hline _ hanchor =>
    rw [anchors_own, hline]
    simp [Draft.anchors, hanchor]
  | changes hline _ hanchor => simp [anchors_modifyDecl hanchor, hline]
  | computes hcall => simp [hcall, Call.line?, Draft.anchors]
  | moves hline => simp [hline, Draft.anchors]

theorem Step.placed? (h : draft.Step c next added) (file : String) :
    draft.placed? file c added =
      if draft.file = file then c.line?.map (·, draft.unit.decls.size) else none := by
  cases h with
  | declares hline => simp [Draft.placed?, hline]
  | changes hline => simp [Draft.placed?, hline]
  | computes hcall => simp [Draft.placed?, hcall, Call.line?]
  | moves hline => simp [Draft.placed?, hline]

/-- A declaration more, on its line and on no other. -/
theorem onLine_concat (h : next.anchors = draft.anchors ++ [draft.nextAnchor line]) (file : String)
    (line' : Nat) : next.onLine file line' =
      draft.onLine file line' + if draft.file = file ∧ line = line' then 1 else 0 := by
  rw [onLine, h, List.countP_append, ← onLine, nextAnchor_eq]
  simp [List.countP_singleton]

/-! ## Runs -/

/-- Once added, a declaration stays where it is. -/
theorem anchors_prefix_run (draft : Draft) (calls : List Call) :
    draft.anchors <+: (draft.run calls).1.anchors := by
  have hstep : ∀ mid c next added, Step mid c next added → draft.anchors <+: mid.anchors →
      draft.anchors <+: next.anchors := fun mid c next added hstep h =>
    h.trans (hstep.anchors ▸ List.prefix_append _ _)
  exact run_keeps hstep List.prefix_rfl calls

/-- A declaration that was just added stands after those on its line, and stays there. -/
theorem anchor_of_next (h : next.anchors = draft.anchors ++ [draft.nextAnchor line])
    (calls : List Call) : (next.run calls).1.anchors[draft.unit.decls.size]? =
      some ⟨draft.file, line, 1 + 4 * draft.onLine draft.file line⟩ := by
  have hlast : next.anchors[draft.unit.decls.size]? = some (draft.nextAnchor line) := by
    rw [h, ← length_anchors, List.getElem?_concat_length]
  obtain ⟨later, hlater⟩ := anchors_prefix_run next calls
  have hlt := (List.getElem?_eq_some_iff.1 hlast).1
  rw [← hlater, List.getElem?_append_left hlt, hlast, nextAnchor_eq]

theorem addedIn_cons (hc : draft.step c = .ok (next, added)) :
    draft.addedIn file (c :: calls) =
      (if draft.file = file then c.line?.map (·, draft.unit.decls.size) else none).toList ++
        next.addedIn file calls := by
  rw [addedIn, hc]
  simp only [(step_cases hc).placed? file]

theorem addedIn_cons_error {fault : Fault} (hc : draft.step c = .error fault) :
    draft.addedIn file (c :: calls) = draft.addedIn file calls := by
  rw [addedIn, hc]

/-- Each declaration in a file stands after those that were there and those that were added there
before it, on its line. -/
theorem anchor_of_addedIn (h : (draft.addedIn file calls)[k]? = some (line, d)) :
    (draft.run calls).1.anchors[d]? = some ⟨file, line, 1 + 4 * (draft.onLine file line +
      (((draft.addedIn file calls).map Prod.fst).take k).count line)⟩ := by
  induction calls generalizing draft k with
  | nil => simp [addedIn] at h
  | cons c rest ih =>
    cases hc : draft.step c with
    | error fault =>
      rw [addedIn_cons_error hc] at h ⊢
      rw [run_cons_error hc]
      exact ih h
    | ok result =>
      obtain ⟨next, added⟩ := result
      have hanchors := (step_cases hc).anchors
      rw [addedIn_cons hc] at h ⊢
      rw [run_cons_ok hc]
      -- a declaration moves the count of its own line in its own file
      cases hline : c.line? with
      | none =>
        simp only [hline, Option.map_none, ite_self, Option.toList_none, List.nil_append,
          List.map_nil, List.append_nil] at h hanchors ⊢
        rw [ih h, onLine, onLine, hanchors]
      | some line' =>
        simp only [hline, Option.map_some, Option.toList_some, List.map_singleton] at h hanchors ⊢
        by_cases hfile : draft.file = file
        · subst hfile
          simp only [if_true, Option.toList_some, List.singleton_append] at h ⊢
          cases k with
          | zero =>
            cases h
            simpa using anchor_of_next hanchors rest
          | succ k =>
            rw [List.getElem?_cons_succ] at h
            rw [ih h, onLine_concat hanchors]
            simp [List.count_cons, Nat.add_assoc, Nat.add_comm, Nat.add_left_comm]
        · simp only [if_neg hfile, Option.toList_none, List.nil_append] at h ⊢
          rw [ih h, onLine_concat hanchors]
          simp [hfile]

/-- Every declaration that the steps add is added in the file and on the line where it stands. -/
theorem mem_addedIn {a : Anchor} (h : (draft.run calls).1.anchors[d]? = some a)
    (hd : draft.unit.decls.size ≤ d) : (a.line, d) ∈ draft.addedIn a.file calls := by
  induction calls generalizing draft with
  | nil =>
    have hlt := (List.getElem?_eq_some_iff.1 h).1
    rw [length_anchors] at hlt
    exact absurd hd (Nat.not_le.2 hlt)
  | cons c rest ih =>
    cases hc : draft.step c with
    | error fault =>
      rw [run_cons_error hc] at h
      rw [addedIn_cons_error hc]
      exact ih h hd
    | ok result =>
      obtain ⟨next, added⟩ := result
      have hanchors := (step_cases hc).anchors
      have hsize := congrArg List.length hanchors
      rw [run_cons_ok hc] at h
      rw [addedIn_cons hc]
      cases hline : c.line? with
      | none =>
        simp only [hline, Option.toList_none, List.map_nil, List.append_nil, length_anchors]
          at hsize
        exact List.mem_append_right _ (ih h (hsize ▸ hd))
      | some line =>
        simp only [hline, Option.toList_some, List.map_singleton, List.length_append,
          List.length_singleton, length_anchors] at hanchors hsize
        rcases Nat.eq_or_lt_of_le hd with rfl | hlt
        · obtain rfl := Option.some.inj ((anchor_of_next hanchors rest).symm.trans h)
          simp
        · exact List.mem_append_right _ (ih h (by omega))

/-- No two anchors are the same, and a declaration that is added next stands after all on its
line. -/
structure Spaced (draft : Draft) : Prop where
  nodup : draft.anchors.Nodup
  before : ∀ a ∈ draft.anchors, a.column < 1 + 4 * draft.onLine a.file a.line

theorem Spaced.new (id : Nat) (file : String) : Spaced (new id file) :=
  ⟨List.nodup_nil, fun _ h => absurd h List.not_mem_nil⟩

/-- The next anchor on a line stands after all that are there, so it is new. -/
theorem Spaced.concat (h : draft.Spaced)
    (hnext : next.anchors = draft.anchors ++ [draft.nextAnchor line]) : next.Spaced := by
  have hfresh : draft.nextAnchor line ∉ draft.anchors := by
    intro hmem
    have hlt := h.before _ hmem
    rw [nextAnchor_eq] at hlt
    exact absurd hlt (Nat.lt_irrefl _)
  constructor
  · rw [hnext]
    exact List.nodup_append'.2 ⟨h.nodup, List.nodup_singleton _, by simpa using hfresh⟩
  · intro a ha
    rw [onLine_concat hnext]
    rw [hnext] at ha
    rcases List.mem_append.1 ha with ha | ha
    · have hlt := h.before a ha
      omega
    · rw [List.mem_singleton.1 ha, nextAnchor_eq]
      simp

/-- Each step keeps the anchors spaced. -/
theorem Spaced.step (h : draft.Spaced) (hstep : draft.Step c next added) : next.Spaced := by
  have hanchors := hstep.anchors
  cases hline : c.line? with
  | none =>
    rw [hline, Option.toList_none, List.map_nil, List.append_nil] at hanchors
    exact ⟨hanchors ▸ h.nodup, fun a ha => by
      rw [onLine, hanchors]
      exact h.before a (hanchors ▸ ha)⟩
  | some line =>
    rw [hline, Option.toList_some, List.map_singleton] at hanchors
    exact h.concat hanchors

/-- If two runs name the same lines where they add declarations in a file, these declarations stand
at the same anchors, in order. In one run every declaration is among those of its file, and no two
stand at the same anchor. -/
theorem anchors_agree (id id' : Nat) (main main' : String) (calls calls' : List Call) :
    (∀ file, ((new id main).addedIn file calls).map Prod.fst =
        ((new id' main').addedIn file calls').map Prod.fst →
      ∀ (k line line' : Nat) (d d' : DeclId),
        ((new id main).addedIn file calls)[k]? = some (line, d) →
        ((new id' main').addedIn file calls')[k]? = some (line', d') →
        ∃ decl decl', ((new id main).run calls).1.unit.decl d = .ok decl ∧
          ((new id' main').run calls').1.unit.decl d' = .ok decl' ∧
          decl.anchor = decl'.anchor) ∧
    (∀ d decl, ((new id main).run calls).1.unit.decl d = .ok decl →
      (decl.anchor.line, d) ∈ (new id main).addedIn decl.anchor.file calls) ∧
    ∀ d d' decl decl', ((new id main).run calls).1.unit.decl d = .ok decl →
      ((new id main).run calls).1.unit.decl d' = .ok decl' → decl.anchor = decl'.anchor →
      d = d' := by
  refine ⟨fun file hlines k line line' d d' hd hd' => ?_, fun d decl hd => ?_,
    fun d d' decl decl' hd hd' hsame => ?_⟩
  · have hline : line = line' := by
      have hk := congrArg (·[k]?) hlines
      simpa [List.getElem?_map, hd, hd'] using hk
    obtain ⟨decl, hdecl, ha⟩ := decl_of_anchor (anchor_of_addedIn hd)
    obtain ⟨decl', hdecl', ha'⟩ := decl_of_anchor (anchor_of_addedIn hd')
    exact ⟨decl, decl', hdecl, hdecl', by rw [ha, ha', hline, hlines]; rfl⟩
  · exact mem_addedIn (anchor_of_decl hd) (Nat.zero_le d)
  · have hspaced : ((new id main).run calls).1.Spaced :=
      run_keeps (fun _ _ _ _ hstep h => h.step hstep) (.new id main) calls
    have ha := anchor_of_decl hd
    have ha' := anchor_of_decl hd'
    have hlt := (List.getElem?_eq_some_iff.1 ha).1
    exact (List.getElem?_inj hlt hspaced.nodup).1 (by rw [ha, ha', hsame])

def including : List Call :=
  [.moveTo "s.h", .param "p" (.pointer .int) 3, .function "f" .int [0] true none 3, .moveBack,
    .var true "g" .int 3]

/-- Another unit with the same header, which is left for a while between the two declarations. -/
def includingElsewhere : List Call :=
  [.var true "h" .int 3, .moveTo "s.h", .param "q" (.pointer .int) 3, .moveTo "t.h",
    .var true "t" .int 3, .expr (.declRef 1), .markMacro 1, .moveTo "s.h",
    .function "f" .int [1] true none 3]

/-- The function stands at one anchor in both units. -/
theorem anchors_agree_including :
    ∃ decl decl', ((new 0 "a.c").run including).1.unit.decl 1 = .ok decl ∧
      ((new 1 "b.c").run includingElsewhere).1.unit.decl 3 = .ok decl' ∧
      decl.anchor = decl'.anchor ∧ decl.anchor = ⟨"s.h", 3, 5⟩ := by
  obtain ⟨hagree, -, -⟩ := anchors_agree 0 1 "a.c" "b.c" including includingElsewhere
  obtain ⟨decl, decl', hd, hd', hsame⟩ :=
    hagree "s.h" (by decide) 1 3 3 1 3 (by decide) (by decide)
  refine ⟨decl, decl', hd, hd', hsame, ?_⟩
  have hanchor : (((new 0 "a.c").run including).1.unit.decl 1).toOption.map Decl.anchor =
      some ⟨"s.h", 3, 5⟩ := by decide +kernel
  rw [hd] at hanchor
  exact Option.some.inj hanchor

end Draft

end CheckedPointers
