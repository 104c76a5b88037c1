import CheckedPointers.Proofs.Analysis.Phases
import CheckedPointers.Proofs.Session.Hops

/-!
Which functions repair reconciles. Where keys tell functions apart a definition is reconciled with
declarations of its own function: with the prototype in its unit, with the signature made for it on
demand, or, if it is global, with global declarations of its name. A definition that is not global
and has no prototype in its unit is reconciled with global declarations of its name too, though
these are of another function.
-/
namespace CheckedPointers

open Op

def functionDecls (units : List TranslationUnit) : List Decl :=
  units.flatMap fun u => u.decls.toList.filter Decl.isFunction

/-- Keys tell functions apart: one key stands for one anchor and one anchor for one key, and the
declarations at one anchor all have a body or all have none. -/
def KeysTell (units : List TranslationUnit) : Prop :=
  ∀ d ∈ functionDecls units, ∀ d' ∈ functionDecls units,
    (d.key = d'.key ↔ d.anchor = d'.anchor) ∧ (d.anchor = d'.anchor → d.hasBody = d'.hasBody)

instance {units : List TranslationUnit} : Decidable (KeysTell units) :=
  inferInstanceAs (Decidable (∀ d ∈ functionDecls units, ∀ d' ∈ functionDecls units, _))

namespace Session

variable {s t : Session} {units : List TranslationUnit} {u : TranslationUnit} {id : DeclId}
  {d : Decl} {key : FunctionKey} {v w : VarId} {made : Making → Prop} {options : Options}

theorem mem_functionDecls (hu : u ∈ units) (hd : u.decl id = .ok d) (hfun : d.isFunction) :
    d ∈ functionDecls units := by
  have hmem := Array.mem_of_getElem? (TranslationUnit.decl_eq_ok.1 hd)
  exact List.mem_flatMap.2 ⟨u, hu, List.mem_filter.2 ⟨hmem.val, hfun⟩⟩

theorem Declares.decl (h : Declares units u id d) : u.decl id = .ok d := by
  obtain ⟨-, -, -, -, hd⟩ := h
  exact hd

theorem Declares.mem_functionDecls (h : Declares units u id d) (hfun : d.isFunction) :
    d ∈ functionDecls units := by
  obtain ⟨hu, -, -, -, hd⟩ := h
  exact Session.mem_functionDecls hu hd hfun

/-! ## Functions and their keys -/

namespace Origins

variable {m m' : Making}

theorem mem_functionDecls (h : Origins (Declares units) made s) (hm : made m) :
    m.decl ∈ functionDecls units := (h.site m hm).mem_functionDecls (h.isFunction m hm)

theorem eq_of_key (h : Origins (Declares units) made s) (hkeys : KeysTell units) (hm : made m)
    (hm' : made m') (hkey : m.decl.key = m'.decl.key) : m = m' :=
  h.once m m' hm hm' ((hkeys _ (h.mem_functionDecls hm) _ (h.mem_functionDecls hm')).1.1 hkey)

/-- What stands at the anchor of a bodiless declaration is declared under its key. -/
theorem declared_of_stored (h : Origins (Declares units) made s) (hkeys : KeysTell units)
    {q : Decl} (hq : q ∈ functionDecls units) (hbody : ¬ q.hasBody)
    (hv : v ∈ s.storedAt q.anchor) (hfun : s.arena.isFunction v) :
    v ∈ s.pairing.declaredUnder q.key := by
  obtain ⟨m, hm, rfl, hanchor⟩ := h.only q.anchor v hv hfun
  obtain ⟨hkey, hbodies⟩ := hkeys _ (h.mem_functionDecls hm) _ hq
  exact (h.declarations _ _).2 ⟨m, hm, rfl, by rwa [hbodies hanchor], hkey.2 hanchor⟩

/-- What is declared under the key of a declaration stands at its anchor. -/
theorem stored_of_declared (h : Origins (Declares units) made s) (hkeys : KeysTell units)
    {q : Decl} (hq : q ∈ functionDecls units) (hw : w ∈ s.pairing.declaredUnder q.key) :
    w ∈ s.storedAt q.anchor := by
  obtain ⟨m, hm, rfl, -, hkey⟩ := (h.declarations _ _).1 hw
  rw [← (hkeys _ (h.mem_functionDecls hm) _ hq).1.1 hkey]
  exact h.place m hm

/-- The key that is paired with that of a definition is the key of the prototype in its unit. -/
theorem hasPrototype_of_paired (h : Origins (Declares units) made s) (hkeys : KeysTell units)
    (hm : made m) (hpaired : s.pairing.pairedKey? m.decl.key = some key) : m.HasPrototype key := by
  obtain ⟨m', hm', -, hkey, hprototype⟩ := h.pairs _ key hpaired
  rwa [h.eq_of_key hkeys hm hm' hkey.symm]

end Origins

theorem Making.HasPrototype.unique {m : Making} {key' : FunctionKey} (h : m.HasPrototype key)
    (h' : m.HasPrototype key') : key = key' := by
  obtain ⟨p, hp, hkey⟩ := h
  obtain ⟨p', hp', hkey'⟩ := h'
  obtain rfl := Option.some.inj (Except.ok.inj (hp.symm.trans hp'))
  exact Except.ok.inj (hkey.symm.trans hkey')

/-- The prototype of a making is a bodiless function declaration with that key. -/
theorem Making.HasPrototype.exists_decl {m : Making} (h : m.HasPrototype key)
    (hsite : Declares units m.unit m.id m.decl) :
    ∃ p q, m.unit.prototypeOf m.id = .ok (some p) ∧ m.unit.decl p = .ok q ∧
      q ∈ functionDecls units ∧ ¬ q.hasBody ∧ q.key = key := by
  obtain ⟨p, hp, hkey⟩ := h
  obtain ⟨q, hq, hfun, -, hbody⟩ := TranslationUnit.prototypeOf_spec hsite.decl hp
  exact ⟨p, q, hp, hq, Session.mem_functionDecls hsite.1 hq hfun, hbody,
    (TranslationUnit.keyOf_eq_ok hq).1 hkey⟩

/-! ## The function that a declaration is of -/

/-- The variable stands for the function of a definition: it stands at the prototype in the unit of
the definition, or was made on demand under its key, or, if the function is global, stands at a
bodiless global declaration of its name. -/
def StandsFor (s : Session) (units : List TranslationUnit) (m : Making) (w : VarId) : Prop :=
  (∃ p q, m.unit.prototypeOf m.id = .ok (some p) ∧ m.unit.decl p = .ok q ∧
    w ∈ s.storedAt q.anchor) ∨
  w ∈ s.implicitsUnder m.decl.key ∨
  m.decl.isGlobalFunction ∧ ∃ g, IsGlobal units g ∧ g.name = m.decl.name ∧ ¬ g.hasBody ∧
    w ∈ s.storedAt g.anchor

/-- No global declaration is taken for one of the function by mistake: the function is global, or
its unit declares a prototype of it, or no unit declares the name globally without a body. -/
def Unmistaken (units : List TranslationUnit) (m : Making) : Prop :=
  m.decl.isGlobalFunction ∨
  (∃ p q, m.unit.prototypeOf m.id = .ok (some p) ∧ Declares units m.unit p q) ∨
  ∀ g, IsGlobal units g → g.name = m.decl.name → g.hasBody

section

variable {m : Making}

/-- What is recorded under the key of the prototype stands at the prototype. -/
theorem standsFor_of_declared (h : Origins (Declares units) made s) (hkeys : KeysTell units)
    (hdemands : Demands units s t) (hindex : t.index = s.index)
    (hnone : ∀ key, s.implicits.find? key = none) (hm : made m)
    (hpaired : t.pairing.pairedKey? m.decl.key = some key)
    (hw : w ∈ t.pairing.declaredUnder key) : t.StandsFor units m w := by
  have hpaired : s.pairing.pairedKey? m.decl.key = some key := by
    rwa [Pairing.pairedKey?, hdemands.pairs] at hpaired
  obtain ⟨p, q, hp, hq, hmem, hbody, rfl⟩ :=
    (h.hasPrototype_of_paired hkeys hm hpaired).exists_decl (h.site m hm)
  refine .inl ⟨p, q, hp, hq, ?_⟩
  rw [storedAt, hindex]
  rcases hdemands.added _ w hw with hw | hw
  · exact h.stored_of_declared hkeys hmem hw
  · -- a signature made on demand has the key of a definition
    cases hfound : t.implicits.find? q.key with
    | none => simp [implicitsUnder, hfound] at hw
    | some set =>
      rcases hdemands.defined _ set hfound with hold | ⟨u, hu, id, d, hd, hfun, hdbody, hkey⟩
      · cases (hnone q.key).symm.trans hold
      · obtain ⟨hanchor, hbodies⟩ := hkeys d (mem_functionDecls hu hd hfun) q hmem
        exact absurd (hbodies (hanchor.1 hkey) ▸ hdbody) hbody

/-- A bodiless variant of the name stands for the function, unless it is taken for it by mistake. -/
theorem standsFor_of_variant (h : Origins (Declares units) made s) (hkeys : KeysTell units)
    (hs : s.WellFormed) (hdemands : Demands units s t) (hfollows : s.Follows t)
    (hstored : ∀ u id d, Declares units u id d → d.isFunction →
      ∃ v ∈ s.storedAt d.anchor, s.arena.isFunction v)
    (hm : made m) (hmbody : m.decl.hasBody) (hunmistaken : Unmistaken units m)
    (hnone : ∀ key, t.pairing.pairedKey? m.decl.key = some key →
      ∀ x, x ∉ t.pairing.declaredUnder key)
    (hw : w ∈ t.variants m.decl.name) {g : FunctionVariable}
    (hg : t.arena.function? w = some g) (hbody : ¬ g.hasBody) : t.StandsFor units m w := by
  rw [variants, hfollows.globals] at hw
  obtain ⟨u, id, d, hsite, hglobal, hname, hplace⟩ := h.variants _ w hw
  have hfunction : s.arena.function? w = some g := by
    rw [← hfollows.arena.function?_eq (hs.stored_lt hplace), hg]
  -- the global declaration is bodiless, as the one that its variable was made for is
  have hdbody : ¬ d.hasBody := by
    obtain ⟨m', hm', rfl, hanchor⟩ :=
      h.only _ w hplace (Arena.isFunction_iff.2 ⟨g, hfunction⟩)
    obtain ⟨g', hg', -, hbodies⟩ := h.var m' hm'
    obtain rfl := Option.some.inj (hfunction.symm.trans hg')
    have hmem := hsite.mem_functionDecls (Decl.isFunction_of_isGlobalFunction hglobal)
    rwa [← (hkeys _ (h.mem_functionDecls hm') d hmem).2 hanchor, ← hbodies]
  have hdeclared : IsGlobal units d := isGlobal_iff.2 ⟨u, id, hsite, hglobal⟩
  rcases hunmistaken with hm' | ⟨p, q, hp, hq⟩ | hall
  · refine .inr (.inr ⟨hm', d, hdeclared, hname, hdbody, ?_⟩)
    rwa [storedAt, hfollows.index]
  · -- the prototype would be recorded, and repair would look no further
    obtain ⟨q', hq', hfun, -, hqbody⟩ := TranslationUnit.prototypeOf_spec (h.site m hm).decl hp
    obtain rfl := Except.ok.inj (hq.decl.symm.trans hq')
    obtain ⟨x, hx, hxfun⟩ := hstored m.unit p q hq hfun
    have hdeclared := h.declared_of_stored hkeys (hq.mem_functionDecls hfun) hqbody hx hxfun
    have hprototype : m.HasPrototype q.key :=
      ⟨p, hp, (TranslationUnit.keyOf_eq_ok hq').2 rfl⟩
    obtain ⟨key, hkey⟩ := Option.isSome_iff_exists.1 (h.paired m _ hm hmbody hprototype)
    have hpaired : s.pairing.pairedKey? m.decl.key = some q.key := by
      rw [hkey, (h.hasPrototype_of_paired hkeys hm hkey).unique hprototype]
    refine absurd (hdemands.declared _ x hdeclared) (hnone q.key ?_ x)
    rwa [Pairing.pairedKey?, hdemands.pairs]
  · exact absurd (hall d hdeclared hname) hdbody

end

theorem Records.standsFor {m : Making} (h : s.Records t) :
    t.StandsFor units m w ↔ s.StandsFor units m w := by
  rw [h.only]
  rfl

/-! ## All pairs -/

namespace Phases

variable {outcome : Outcome} (p : Phases units (.new options) outcome s)

include p

theorem exists_stored (h : Declares units u id d) (hfun : d.isFunction) :
    ∃ v ∈ p.indexed.storedAt d.anchor, p.indexed.arena.isFunction v := by
  obtain ⟨hu, ids, hids, hid, hd⟩ := h
  exact (p.notedAll hu hids).stored id hid d hd hfun

/-- Whatever is paired with a definition before linking stands for its function. -/
theorem standsFor_of_pairs {sol : Solution} (hkeys : KeysTell units)
    (hpair : p.followed.Pairs sol v w) :
    ∃ m : Making, m.var = v ∧ Declares units m.unit m.id m.decl ∧ m.decl.hasBody ∧
      v ∈ p.followed.storedAt m.decl.anchor ∧ p.followed.arena.isFunction v ∧
      (Unmistaken units m → p.followed.StandsFor units m w) := by
  obtain ⟨made, horigins⟩ := p.traces.origins (Declares units) _ (fun _ _ _ => id) .new
  have hdemands := p.demands
  have hfollows := p.follows
  obtain ⟨e, he, hv, hw⟩ := hpair
  rw [hdemands.definitions] at he
  obtain ⟨m, hm, rfl, hbody, hkey⟩ := horigins.definitions e he v (Arena.mem_of_leastSafe? hv)
  obtain ⟨f, hf, hname, -⟩ := horigins.var m hm
  have hf := hfollows.arena.function? hf
  have hplace : m.var ∈ p.followed.storedAt m.decl.anchor := by
    rw [storedAt, hfollows.index]
    exact horigins.place m hm
  refine ⟨m, rfl, horigins.site m hm, hbody, hplace, Arena.isFunction_iff.2 ⟨f, hf⟩,
    fun hunmistaken => ?_⟩
  rw [← hkey] at hw
  rcases of_mem_declarationsPaired hw with ⟨key, hpaired, hw⟩ | ⟨hnone, hw | hvariant⟩
  · refine standsFor_of_declared horigins hkeys hdemands hfollows.index (fun key => ?_) hm
      hpaired hw
    rw [p.traces.implicits]
    rfl
  · exact .inr (.inl hw)
  · obtain ⟨hw, g, hg, hgbody⟩ := hvariant f hf
    exact standsFor_of_variant horigins hkeys p.wellFormed_indexed hdemands hfollows
      (fun u id d => p.exists_stored) hm hbody hunmistaken hnone (hname ▸ hw) hg hgbody

end Phases

/-- In any round of repair: what is reconciled with a definition stands for the function that the
definition was made for, unless that is mistaken for another one; and repair adds nothing but
bounds on one of the two that a level of the other one solved to. -/
theorem analyse_pairs_own_declarations {outcome : Outcome}
    (h : (analyse units).Ends (.new options) outcome s) (hkeys : KeysTell units) :
    ∃ p : Phases units (.new options) outcome s, ∀ r, p.linked.Records r → ∀ sol,
      (∀ definition declaration, r.Pairs sol definition declaration →
        ∃ m : Making, m.var = definition ∧ Declares units m.unit m.id m.decl ∧ m.decl.hasBody ∧
          definition ∈ r.storedAt m.decl.anchor ∧ r.arena.isFunction definition ∧
          (Unmistaken units m → r.StandsFor units m declaration)) ∧
      ∀ b t, (repair sol).Ends r b t → ∀ c ∈ t.solver.constraints, c ∈ r.solver.constraints ∨
        ∃ definition declaration x y, r.Pairs sol definition declaration ∧
          Partner r.arena definition declaration x y ∧ HandsOn r.arena sol x y c := by
  obtain ⟨p⟩ := exists_phases h
  refine ⟨p, fun r hr sol => ⟨fun definition declaration hpair => ?_, fun b t hrepair c hc => ?_⟩⟩
  · have hfr := p.links.trans hr
    obtain ⟨m, hvar, hsite, hbody, hplace, hfun, hown⟩ :=
      p.standsFor_of_pairs hkeys (hfr.pairs.1 hpair)
    refine ⟨m, hvar, hsite, hbody, ?_, hfr.arena ▸ hfun, fun h => hfr.standsFor.2 (hown h)⟩
    rwa [storedAt, hfr.creates.visits.index]
  · rcases ((repair_adds sol r).of_ends hrepair).2 c hc with hold | ⟨x, y, hhop, hc⟩
    · exact .inl hold
    · obtain ⟨definition, declaration, hpair, hpartner⟩ := hhop
      exact .inr ⟨definition, declaration, x, y, hpair, hpartner, hc⟩

/-- The function of one name that two units share: the one declares it and the other one defines
it. -/
def sharedFunction (file : String) (body : Option (List Stmt)) : Decl :=
  ⟨"f", ⟨file, 1, 5⟩, false, .function ⟨.pointer .int, [.pointer .int], false, true⟩ [0] true body⟩

def sharingUnit (file : String) (body : Option (List Stmt)) : TranslationUnit :=
  { id := 1
    file := file
    decls := #[
      ⟨"p", ⟨file, 1, 1⟩, false, .param (.pointer .int) (some 1) none⟩,
      sharedFunction file body]
    exprs := #[]
    topLevel := [1] }

/-- A definition of the same name that no other unit sees. It subscripts its parameter. -/
def hiddenFunction : Decl :=
  ⟨"f", ⟨"a.c", 3, 5⟩, false, .function ⟨.pointer .int, [.pointer .int], false, true⟩ [0] false
    (some [.expr 2])⟩

/-- The definition is all that its unit says of the function. -/
def hidingUnit : TranslationUnit :=
  { id := 0
    file := "a.c"
    decls := #[
      ⟨"p", ⟨"a.c", 3, 1⟩, false, .param (.pointer .int) (some 1) none⟩,
      hiddenFunction]
    exprs := #[.declRef 0, .intLiteral 3, .subscript 0 1]
    topLevel := [1] }

def hiddenPrototype : Decl :=
  ⟨"f", ⟨"a.c", 1, 5⟩, false, .function ⟨.pointer .int, [.pointer .int], false, true⟩ [3] false
    none⟩

def announcingUnit : TranslationUnit :=
  { hidingUnit with
    decls := hidingUnit.decls ++ #[
      hiddenPrototype,
      ⟨"p", ⟨"a.c", 1, 1⟩, false, .param (.pointer .int) (some 2) none⟩]
    topLevel := [2, 1] }

def announcingProgram : List TranslationUnit :=
  [announcingUnit, sharingUnit "b.c" none, sharingUnit "c.c" (some [])]

def hidingProgram : List TranslationUnit :=
  [hidingUnit, sharingUnit "b.c" none, sharingUnit "c.c" (some [])]

/-- With the prototype in its own unit no definition of the program is mistaken. -/
theorem unmistaken_announcing (h : Declares announcingProgram u id d) :
    Unmistaken announcingProgram ⟨v, u, id, d⟩ := by
  obtain ⟨hu, ids, hids, hid, hd⟩ := h
  have hprototype : Declares announcingProgram announcingUnit 2 hiddenPrototype :=
    ⟨List.mem_cons_self, _, rfl, by decide +kernel, rfl⟩
  have hfound : ∀ i ∈ [2, 1], announcingUnit.prototypeOf i = .ok (some 2) := by decide +kernel
  have hshared : ∀ {file body}, (sharingUnit file body).declarators = .ok [1] →
      u = sharingUnit file body → Unmistaken announcingProgram ⟨v, u, id, d⟩ := by
    rintro file body hone rfl
    obtain rfl := Except.ok.inj (hone.symm.trans hids)
    obtain rfl := List.mem_singleton.1 hid
    obtain rfl := Except.ok.inj hd
    exact .inl rfl
  simp only [announcingProgram, List.mem_cons, List.not_mem_nil, or_false] at hu
  rcases hu with rfl | hu | hu
  · have hown : announcingUnit.declarators = .ok [2, 1] := by decide +kernel
    obtain rfl := Except.ok.inj (hown.symm.trans hids)
    exact .inr (.inl ⟨2, hiddenPrototype, hfound id hid, hprototype⟩)
  · exact hshared (by decide +kernel) hu
  · exact hshared (by decide +kernel) hu

/-- The hidden function is paired with the prototype of its unit and leaves the others alone. -/
theorem analyse_pairs_own_declarations_announcing :
    ∃ outcome s, (analyse announcingProgram).Ends (.new .default) outcome s ∧
      s.Pairs outcome.settled.sol 5 2 ∧
      (∃ m : Making, m.var = 5 ∧ Declares announcingProgram m.unit m.id m.decl ∧ m.decl.hasBody ∧
        s.StandsFor announcingProgram m 2) ∧
      s.arena.levels 1 = [1] ∧ outcome.settled.sol.category 1 = .arr ∧
      8 ∈ s.storedAt (sharedFunction "b.c" none).anchor ∧
      s.arena.levels 7 = [5] ∧ outcome.settled.sol.category 5 = .ptr := by
  obtain ⟨outcome, s, h, hlook⟩ := exists_ends (x := analyse announcingProgram) (s := .new .default)
    (g := fun o s => decide (s.Pairs o.settled.sol 5 2) &&
      8 ∈ s.storedAt (sharedFunction "b.c" none).anchor &&
      [1, 7].map s.arena.levels = [[1], [5]] &&
      [1, 5].map o.settled.sol.category = [.arr, .ptr])
    (b := true) (by decide +kernel)
  simp only [Bool.and_eq_true, decide_eq_true_eq, List.map_cons, List.map_nil, List.cons.injEq,
    and_true] at hlook
  obtain ⟨⟨⟨hpair, hstored⟩, hlevels⟩, hcategories⟩ := hlook
  obtain ⟨p, hown⟩ := analyse_pairs_own_declarations h (by decide +kernel)
  obtain ⟨m, hvar, hsite, hbody, -, -, hstands⟩ := (hown s p.settles _).1 5 2 hpair
  exact ⟨outcome, s, h, hpair, ⟨m, hvar, hsite, hbody, hstands (unmistaken_announcing hsite)⟩,
    hlevels.1, hcategories.1, hstored, hlevels.2, hcategories.2⟩

/-- Without the prototype repair takes the global declaration for one of the hidden function, and
raises the parameter of another function. -/
theorem analyse_pairs_hidden :
    ∃ outcome s, (analyse hidingProgram).Ends (.new .default) outcome s ∧ KeysTell hidingProgram ∧
      ∃ m : Making, Declares hidingProgram m.unit m.id m.decl ∧ m.decl.hasBody ∧
        ¬ m.decl.isGlobalFunction ∧ m.var ∈ s.storedAt m.decl.anchor ∧
        ∃ w ∈ s.storedAt (sharedFunction "b.c" none).anchor,
          s.Pairs outcome.settled.sol m.var w ∧ ¬ s.StandsFor hidingProgram m w ∧
          ∃ a, s.arena.Owns w a ∧ .atLeast a .arr ∈ s.solver.constraints ∧
            outcome.settled.sol.category a = .arr := by
  obtain ⟨outcome, s, h, hlook⟩ := exists_ends (x := analyse hidingProgram) (s := .new .default)
    (g := fun o s => decide (s.Pairs o.settled.sol 2 5) && 2 ∈ s.storedAt hiddenFunction.anchor &&
      5 ∈ s.storedAt (sharedFunction "b.c" none).anchor &&
      s.implicitsUnder hiddenFunction.key = .empty &&
      s.arena.atoms? 5 = some [2, 3] && .atLeast 3 .arr ∈ s.solver.constraints &&
      o.settled.sol.category 3 = .arr)
    (b := true) (by decide +kernel)
  simp only [Bool.and_eq_true, decide_eq_true_eq] at hlook
  obtain ⟨⟨⟨⟨⟨⟨hpair, hstored⟩, hother⟩, hnone⟩, hatoms⟩, hraised⟩, hcategory⟩ := hlook
  have hsite : Declares hidingProgram hidingUnit 1 hiddenFunction :=
    ⟨List.mem_cons_self, _, rfl, by decide +kernel, rfl⟩
  refine ⟨outcome, s, h, by decide +kernel, ⟨2, hidingUnit, 1, hiddenFunction⟩, hsite, rfl,
    by decide, hstored, 5, hother, hpair, ?_, 3, ⟨_, hatoms, by simp⟩, hraised, hcategory⟩
  rintro (⟨p, q, hp, -⟩ | himplicit | ⟨hglobal, -⟩)
  · have hno : hidingUnit.prototypeOf 1 = .ok none := by decide +kernel
    exact nomatch Except.ok.inj (hno.symm.trans hp)
  · rw [hnone] at himplicit
    exact VarSet.not_mem_empty 5 himplicit
  · exact absurd hglobal (by decide)

end Session

end CheckedPointers
