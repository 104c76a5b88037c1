import CheckedPointers.Proofs.Analysis.Agreement

/-!
Functions whose body no unit has. Which names linking forces is told by the declarations of all
units alone, in whatever order they come; what a forced name owns ends up wild.
-/
namespace CheckedPointers

open Op

namespace Session

variable {s : Session} {units : List TranslationUnit} {options : Options} {name : String}

/-- The name is declared globally, and no global declaration of it has a body. -/
def LacksBody (units : List TranslationUnit) (name : String) : Prop :=
  (∃ d, IsGlobal units d ∧ d.name = name) ∧ ∀ d, IsGlobal units d → d.name = name → ¬ d.hasBody

def globalDecls (units : List TranslationUnit) : List Decl :=
  units.flatMap fun u => (u.declarators.toOption.getD []).filterMap fun id =>
    (u.decl id).toOption.filter Decl.isGlobalFunction

theorem mem_globalDecls {d : Decl} : d ∈ globalDecls units ↔ IsGlobal units d := by
  simp only [globalDecls, IsGlobal, List.mem_flatMap, List.mem_filterMap]
  refine exists_congr fun u => and_congr_right fun _ => ?_
  have hfound : ∀ id, (u.decl id).toOption.filter Decl.isGlobalFunction = some d ↔
      u.decl id = .ok d ∧ d.isGlobalFunction := fun id => by
    cases u.decl id <;> simp [Except.toOption, Option.filter_eq_some_iff]
  simp only [hfound]
  cases u.declarators <;> simp [Except.toOption]

instance : Decidable (LacksBody units name) :=
  decidable_of_iff ((∃ d ∈ globalDecls units, d.name = name) ∧
    ∀ d ∈ globalDecls units, d.name = name → ¬ d.hasBody) (by
      simp only [mem_globalDecls, LacksBody])

/-- The unresolved names are those whose body was not seen and that are not allowed. -/
theorem mem_unresolvedNames (hs : s.externs.Sorted) : name ∈ s.unresolvedNames ↔
    s.externs.find? name = some false ∧ ¬ s.options.allows name := by
  rw [hs.find?_eq_some]
  constructor
  · intro h
    obtain ⟨⟨n, seen⟩, he, rfl⟩ := List.mem_map.1 h
    obtain ⟨he, hp⟩ := List.mem_filter.1 he
    simp only [Bool.and_eq_true, Bool.not_eq_true'] at hp
    obtain ⟨rfl, hallows⟩ := hp
    exact ⟨he, by simp [hallows]⟩
  · rintro ⟨he, hallows⟩
    exact List.mem_map.2 ⟨_, List.mem_filter.2 ⟨he, by simpa using hallows⟩, rfl⟩

theorem nodup_unresolvedNames (hs : s.externs.Sorted) : s.unresolvedNames.Nodup :=
  hs.nodup_keys.sublist (List.filter_sublist.map _)

/-- A name is noted without a body just if it is declared globally and no global declaration has
one. -/
theorem ExternsOf.lacksBody_iff (h : ExternsOf (IsGlobal units) s) :
    s.externs.find? name = some false ↔ LacksBody units name := by
  have hnoted := h.noted name
  have hbody := h.body name
  constructor
  · intro hfound
    rw [hfound] at hnoted hbody
    exact ⟨hnoted.1 rfl, fun d hd hname hseen => nomatch hbody.2 ⟨d, hd, hname, hseen⟩⟩
  · rintro ⟨hdeclared, hno⟩
    obtain ⟨seen, hfound⟩ := Option.isSome_iff_exists.1 (hnoted.2 hdeclared)
    cases seen with
    | false => exact hfound
    | true =>
      obtain ⟨d, hd, hname, hseen⟩ := hbody.1 hfound
      exact absurd hseen (hno d hd hname)

/-- Once the units have been indexed, the global declarations of all of them are accounted for. -/
theorem externsOf_of_index {b : Session} (hindex : (indexUnits units).Ends (.new options) ⟨⟩ b)
    (h : s.externs = b.externs) : ExternsOf (IsGlobal units) s := by
  have htraces := ((indexUnits_traces units (wellFormed_new options)).of_ends hindex).2
  apply (htraces.externs _ .new).congr _ h
  intro d
  rw [isGlobal_iff, false_or]

/-- Whether a body was seen does not depend on the order of the units. -/
theorem lacksBody_perm {units' : List TranslationUnit} (hperm : units.Perm units') :
    LacksBody units name ↔ LacksBody units' name := by
  have hglobal : ∀ d, IsGlobal units d ↔ IsGlobal units' d := fun d =>
    exists_congr fun u => and_congr_left fun _ => hperm.mem_iff
  simp only [LacksBody, hglobal]

/-! ## Forcing -/

theorem boundNames_adds (names : List String) (hs : s.WellFormed) :
    Adds (fun c => ∃ name ∈ names, ∃ v ∈ s.variants name, BoundOn s.arena .leastSafe v c)
      (names.forM boundName) s := by
  apply Adds.forM
  intro name hname t hst
  apply (boundName_adds name (hst.creates.wellFormed hs)).mono
  rintro c ⟨v, hv, hb⟩
  exact ⟨name, hname, v, hst.variants name ▸ hv, hst.arena ▸ hb⟩

section

variable {outcome : Outcome} (p : Phases units (.new options) outcome s)

include p

namespace Phases

/-- Before linking, the global declarations of all units are accounted for. -/
theorem externsOf : ExternsOf (IsGlobal units) p.followed :=
  externsOf_of_index p.index p.demands.externs

/-- The names that linking forces. -/
theorem mem_unresolvedNames_iff :
    name ∈ p.followed.unresolvedNames ↔ LacksBody units name ∧ ¬ options.allows name := by
  rw [mem_unresolvedNames p.externsOf.sorted, p.externsOf.lacksBody_iff,
    ← p.links.creates.options, p.options_linked]

end Phases

end

/-- Linking ends with forcing names, each once: those that some unit declares globally, of which no
unit has a body at a global declaration, and which are not allowed. It reports how many they are,
and it bounds nothing but what their variants own. In the solution all of that is wild. -/
theorem analyse_forces_unresolved {outcome : Outcome}
    (h : (analyse units).Ends (.new options) outcome s) :
    ∃ p : Phases units (.new options) outcome s, ∃ shared reconciled merged,
      p.followed.Records shared ∧ mergeDeclarations.Ends shared reconciled merged ∧
      (p.followed.unresolvedNames.forM boundName).Ends merged ⟨⟩ p.linked ∧
      p.followed.unresolvedNames.Nodup ∧
      outcome.link.unresolvedExterns = p.followed.unresolvedNames.length ∧
      (∀ name, name ∈ p.followed.unresolvedNames ↔
        LacksBody units name ∧ ¬ options.allows name) ∧
      (∀ c ∈ p.linked.solver.constraints, c ∈ merged.solver.constraints ∨
        ∃ name ∈ p.followed.unresolvedNames, ∃ v ∈ s.variants name,
          BoundOn s.arena .leastSafe v c) ∧
      ∀ d, IsGlobal units d → LacksBody units d.name → ¬ options.allows d.name →
        (∃ v ∈ s.storedAt d.anchor, s.arena.isFunction v) ∧
        ∀ v ∈ s.storedAt d.anchor, s.arena.isFunction v →
          s.arena.All (fun a => outcome.settled.sol.category a = .wild) v := by
  obtain ⟨p⟩ := exists_phases h
  obtain ⟨l⟩ := exists_linkPasses p.link
  have hfm : p.followed.Records l.merged := l.records_equated.trans l.records_merged
  have hms : l.merged.Records s := l.records_forced.trans p.settles
  have hmerged := hfm.creates.wellFormed p.wellFormed_followed
  refine ⟨p, l.equated, l.reconciled, l.merged, l.records_equated, l.merge, l.force,
    nodup_unresolvedNames p.externsOf.sorted, l.unresolvedExterns,
    fun name => p.mem_unresolvedNames_iff, ?_, ?_⟩
  · intro c hc
    rcases ((boundNames_adds _ hmerged).of_ends l.force).2 c hc with hold | ⟨name, hname, v, hv, hb⟩
    · exact .inl hold
    · exact .inr ⟨name, hname, v, hms.variants name ▸ hv, hms.arena ▸ hb⟩
  · intro d hd hlacks hallows
    have hnoted := p.noted hd
    refine ⟨hnoted.stored, fun v hv hfun => ?_⟩
    obtain ⟨f, hf⟩ := Arena.isFunction_iff.1 hfun
    have hname := p.mem_unresolvedNames_iff.2 ⟨hlacks, hallows⟩
    have hbounded := ((boundNames_meets _ l.merged).of_ends l.force).2 d.name hname v
      (hms.variants d.name ▸ hnoted.variant v hv hfun) f (hms.arena ▸ hf)
    rw [p.isSettled.solution]
    exact (hbounded.records p.settles).all_wild p.wellFormed hf

/-- It takes a callback, whose signature belongs to it. -/
def callingBack : Decl :=
  let ptr : CType := .pointer .int
  let callback : CType := .pointer (.function ptr [ptr] false true)
  ⟨"g", ⟨"a.c", 1, 5⟩, false, .function ⟨.int, [callback], false, true⟩ [0] true none⟩

def promisedFunction : Decl :=
  ⟨"h", ⟨"a.c", 2, 5⟩, false, .function ⟨.pointer .int, [], false, true⟩ [] true none⟩

/-- Declarations of two functions that are not defined here. -/
def promisingUnit : TranslationUnit :=
  let ptr : CType := .pointer .int
  { id := 0
    file := "a.c"
    decls := #[
      ⟨"cb", ⟨"a.c", 1, 9⟩, false,
        .param (.pointer (.function ptr [ptr] false true)) (some 1) none⟩,
      callingBack,
      promisedFunction]
    exprs := #[]
    topLevel := [1, 2] }

def suppliedFunction : Decl :=
  ⟨"h", ⟨"b.c", 1, 5⟩, false, .function ⟨.pointer .int, [], false, true⟩ [] true (some [])⟩

def supplyingUnit : TranslationUnit :=
  { id := 1
    file := "b.c"
    decls := #[suppliedFunction]
    exprs := #[]
    topLevel := [0] }

/-- All that `g` owns is wild, the signature of its callback included, and `h` is resolved. -/
theorem analyse_forces_unresolved_callback :
    ∃ outcome s, (analyse [promisingUnit, supplyingUnit]).Ends (.new .default) outcome s ∧
      LacksBody [promisingUnit, supplyingUnit] "g" ∧
      ¬ LacksBody [promisingUnit, supplyingUnit] "h" ∧
      outcome.link.unresolvedExterns = 1 ∧
      5 ∈ s.storedAt callingBack.anchor ∧ s.arena.atoms? 5 = some [0, 1, 2] ∧
      s.arena.All (fun a => outcome.settled.sol.category a = .wild) 5 := by
  obtain ⟨outcome, s, h, hlook⟩ := exists_ends (x := analyse [promisingUnit, supplyingUnit])
    (s := .new .default)
    (g := fun o s => o.link.unresolvedExterns = 1 && 5 ∈ s.storedAt callingBack.anchor &&
      s.arena.isFunction 5 && s.arena.atoms? 5 = some [0, 1, 2])
    (b := true) (by decide +kernel)
  simp only [Bool.and_eq_true, decide_eq_true_eq] at hlook
  obtain ⟨⟨⟨hcount, hstored⟩, hfun⟩, hatoms⟩ := hlook
  have hlacks : LacksBody [promisingUnit, supplyingUnit] "g" := by decide +kernel
  have hglobal : IsGlobal [promisingUnit, supplyingUnit] callingBack :=
    ⟨promisingUnit, List.mem_cons_self, _, rfl, 1, by decide +kernel, rfl, rfl⟩
  obtain ⟨p, _, _, _, -, -, -, -, -, -, -, hwild⟩ := analyse_forces_unresolved h
  exact ⟨outcome, s, h, hlacks, by decide +kernel, hcount, hstored, hatoms,
    (hwild callingBack hglobal hlacks (by decide)).2 5 hstored hfun⟩

end Session

end CheckedPointers
