import CheckedPointers.Proofs.Analysis.Progress
import CheckedPointers.Proofs.Session.Arity
import CheckedPointers.Proofs.Session.Equating
import CheckedPointers.Proofs.Variable.Bridging

/-!
Variables that share an anchor. Linking equates neighbours in the order of creation, and equality is
carried on from one to the next, but no further than neighbours have levels and slots in common. So
of any two variables nothing is left to be equated if the row between them bridges them, and a
variable with fewer levels between them may leave something.
-/
namespace CheckedPointers

open Op ConstraintSystem

namespace ConstraintSystem

variable {s : ConstraintSystem} {cs cs' : Array Constraint} {a b x y : Atom}

theorem linked_of_normalized (h : (Constraint.equal a b).normalized = .equal x y)
    (hab : Linked cs a b) : Linked cs x y := by
  rw [Constraint.normalized] at h
  split at h <;> cases h
  · exact hab.symm
  · exact hab

/-- What a store says is equal is in one class. -/
theorem Says.linked (h : s.Says (.equal a b)) : Linked s.constraints a b := by
  rw [Says, Constraint.normalized] at h
  split at h
  · rcases h with h | h
    · exact (of_decide_eq_true h : b = a) ▸ .refl _ _
    · exact (Linked.of_equal h).symm
  · rcases h with h | h
    · exact (of_decide_eq_true h : a = b) ▸ .refl _ _
    · exact .of_equal h

/-- Equations within classes join no classes. -/
theorem Linked.of_equations (h : ∀ x y, .equal x y ∈ cs' → Linked cs x y)
    (hab : Linked cs' a b) : Linked cs a b := by
  induction hab with
  | refl => exact .refl cs a
  | tail _ hj ih => exact ih.trans (hj.elim (h _ _) fun hj => (h _ _ hj).symm)

theorem equivalence_linked (cs : Array Constraint) : Equivalence (Linked cs) :=
  ⟨Linked.refl cs, .symm, .trans⟩

end ConstraintSystem

namespace Session

variable {options : Options} {s t w : Session} {a b u v : VarId} {between : List VarId}

/-- Variables of which all equations are recorded coincide up to classes. -/
theorem EquationsRecorded.coincide_linked (h : t.EquationsRecorded a b) :
    t.arena.Coincide (Linked t.solver.constraints) a b := by
  obtain ⟨eqs, heqs, hsaid⟩ := h
  exact Arena.equatesWithin _ heqs fun e he => (hsaid e he).linked

/-! ## Nothing left to equate -/

/-- Equating variables that coincide up to classes joins no two classes. -/
theorem equate_joins_none (hs : s.WellFormed)
    (h : s.arena.Coincide (Linked s.solver.constraints) a b) (ha : a < s.arena.size)
    (hb : b < s.arena.size) : ∃ t, (equate a b).Ends s ⟨⟩ t ∧
      ∀ x y, Linked t.solver.constraints x y ↔ Linked s.solver.constraints x y := by
  obtain ⟨t, hends, hst, -, hadded⟩ := exists_equated hs ha hb
  refine ⟨t, hends, fun x y => ⟨Linked.of_equations fun x y hc => ?_, ?_⟩⟩
  · rcases hadded _ hc with hold | ⟨eqs, heqs, e, he, hnew⟩
    · exact .of_equal hold
    · have holds := hs.arena.holdsOf (equivalence_linked s.solver.constraints) _ heqs h e he
      exact linked_of_normalized hnew.symm holds
  · exact Linked.mono fun _ hc => hst.solver.mem hc

/-- Variables that coincide up to classes agree in every session that follows. -/
theorem concur_of_coincide (h : s.arena.Coincide (Linked s.solver.constraints) a b)
    (hsw : s.Extends w) (hw : w.WellFormed) (ha : a < s.arena.size) (hb : b < s.arena.size) :
    w.arena.Concur (fun x y => w.solver.solve.category x = w.solver.solve.category y) a b := by
  have hlinked : ∀ x y, Linked s.solver.constraints x y →
      w.solver.solve.category x = w.solver.solve.category y := fun x y hxy =>
    (hxy.mono fun _ hc => hsw.solver.mem hc).value_eq hw.solver.solves
  have hle := hsw.arena.size_le
  exact (h.imp hsw.arena hlinked).concur hw.arena ⟨fun _ => rfl, Eq.symm, Eq.trans⟩
    (Nat.lt_of_lt_of_le ha hle) (Nat.lt_of_lt_of_le hb hle)

/-! ## Linking -/

/-- Linking equates neighbours among the variables that share an anchor. -/
theorem LinkPasses.equates {summary : LinkSummary} (p : LinkPasses s summary t)
    (anchor : Anchor) : (s.storedAt anchor).members.IsChain (t.EquationsRecorded · ·) := by
  have hshared := ((equateShared_meets _ s).of_ends p.equate).2
  have hrt : p.equated.Records t := p.records_merged.trans p.records_forced
  suffices h : (s.storedAt anchor).members.IsChain (p.equated.EquationsRecorded · ·) from
    h.imp fun _ _ h => h.records hrt
  unfold storedAt
  cases hfind : s.index.find? anchor with
  | none => exact List.isChain_nil
  | some set =>
    by_cases hone : 1 < set.size
    · have hmem := List.mem_map_of_mem (f := Prod.snd) (OrderedMap.mem_of_find? hfind)
      exact hshared set (List.mem_filter.2 ⟨hmem, decide_eq_true hone⟩)
    · obtain ⟨members⟩ := set
      match members, hone with
      | [], _ => exact List.isChain_nil
      | [v], _ => exact List.isChain_singleton v
      | _ :: _ :: _, hone => exact absurd (by simp [VarSet.size]) hone

/-- After linking, of any two variables at an anchor whose row is bridged nothing is left to be
equated: equating them, in either order, joins no two classes. Whatever is asked of the session
afterwards, solving gives the two categories that agree. Neighbours are bridged by no one. -/
theorem Reachable.link_suffices (hs : Reachable options s) (hopened : s.opened = none) :
    ∃ summary t, link.Ends s summary t ∧
      ∀ anchor a between b, a :: (between ++ [b]) <:+: (s.storedAt anchor).members →
        (between ≠ [] → s.arena.Bridged a between b) →
        ∀ u v, (u = a ∧ v = b ∨ u = b ∧ v = a) →
          (∃ w, (equate u v).Ends t ⟨⟩ w ∧
            ∀ x y, Linked w.solver.constraints x y ↔ Linked t.solver.constraints x y) ∧
          ∀ rs w, (Session.requests rs).Ends t ⟨⟩ w → w.arena.Concur
            (fun x y => w.solver.solve.category x = w.solver.solve.category y) u v := by
  have hidle : s.Idle := ⟨hs.wellFormed, hopened⟩
  obtain ⟨summary, t, hlink⟩ := (link_failsOnly hidle).ends
  have ht : Reachable options t := hs.ended (r := .link) (ends_discard.2 ⟨summary, hlink⟩)
  refine ⟨summary, t, hlink, fun anchor a between b hrow hbridged u v huv => ?_⟩
  have hst : s.Records t := ((link_meets s).of_ends hlink).1
  obtain ⟨p⟩ := exists_linkPasses hlink
  have hchain := p.equates anchor
  have hcoincide : t.arena.Coincide (Linked t.solver.constraints) a b := by
    have hchain := List.IsChain.infix hchain hrow
    have hchain : t.arena.Row (Linked t.solver.constraints) a between b :=
      hchain.imp fun _ _ h => h.coincide_linked
    by_cases hnone : between = []
    · subst hnone
      exact (List.isChain_cons_cons.1 hchain).1
    · rw [← hst.arena] at hbridged
      exact (hbridged hnone).coincide ht.wellFormed.arena (equivalence_linked _) hchain
  have hlt : ∀ c ∈ a :: (between ++ [b]), c < t.arena.size := fun c hc => by
    rw [hst.arena]
    exact hs.wellFormed.stored_lt (hrow.subset hc)
  have ha := hlt a List.mem_cons_self
  have hb := hlt b (by simp)
  have hboth : t.arena.Coincide (Linked t.solver.constraints) u v ∧ u < t.arena.size ∧
      v < t.arena.size := by
    rcases huv with ⟨rfl, rfl⟩ | ⟨rfl, rfl⟩
    · exact ⟨hcoincide, ha, hb⟩
    · exact ⟨hcoincide.symm, hb, ha⟩
  obtain ⟨hcoincide, hu, hv⟩ := hboth
  exact ⟨equate_joins_none ht.wellFormed hcoincide hu hv, fun rs w hrequests =>
    concur_of_coincide hcoincide (extends_of_requests ht hrequests)
      (ht.requests hrequests).wellFormed hu hv⟩

/-- Three functions whose parameters stand in one header, which is included with another type each
time. The third one is also defined; in its body a pointer is subscripted below its first level and
passed to the function itself. -/
def retypedUnit (first second third : CType) : TranslationUnit :=
  let param (ty : CType) (owner : DeclId) : Decl :=
    ⟨"p", ⟨"param.h", 1, 6⟩, false, .param ty (some owner) none⟩
  let prototype (name : String) (line : Nat) (ty : CType) (p : DeclId) : Decl :=
    ⟨name, ⟨"a.c", line, 13⟩, false,
      .function ⟨.builtin "void", [ty], false, true⟩ [p] false none⟩
  { id := 0
    file := "a.c"
    decls := #[param first 1, prototype "f" 1 first 0, param second 3, prototype "g" 3 second 2,
      param third 5, prototype "h" 5 third 4,
      ⟨"q", ⟨"a.c", 7, 14⟩, false, .var third false none none⟩,
      ⟨"p", ⟨"a.c", 8, 21⟩, false, .param third (some 8) none⟩,
      ⟨"h", ⟨"a.c", 8, 13⟩, false, .function ⟨.builtin "void", [third], false, true⟩ [7] false
        (some [.expr 3, .expr 6])⟩]
    exprs := #[.declRef 6, .unary .deref 0, .intLiteral 1, .subscript 1 2, .declRef 5, .declRef 6,
      .call 4 [5]]
    topLevel := [1, 3, 5, 6, 8] }

def retyping (first second third : CType) : List Request :=
  let u := retypedUnit first second third
  .enter u :: [1, 3, 5, 6, 8].map (.giveVariables u) ++ [.exit, .enter u, .flow u, .exit]

/-- The second pointer has more levels than the first and the third one. These agree on both of
theirs as soon as the units are linked. -/
theorem Reachable.link_suffices_retypedUnit :
    ∃ s summary t w, Reachable .default s ∧ s.opened = none ∧ link.Ends s summary t ∧
      s.storedAt ⟨"param.h", 1, 6⟩ = ⟨[1, 4, 7]⟩ ∧ s.arena.Bridged 1 [4] 7 ∧
      [1, 7].map s.levelsAndTarget = [some ([0, 1], none), some ([5, 6], none)] ∧
      [0, 1, 5, 6].map t.solver.solve.category = [.ptr, .arr, .ptr, .arr] ∧
      (equate 1 7).Ends t ⟨⟩ w ∧
      (∀ x y, Linked w.solver.constraints x y ↔ Linked t.solver.constraints x y) ∧
      t.arena.Concur (fun x y => t.solver.solve.category x = t.solver.solve.category y) 1 7 := by
  let ptr : CType := .pointer .int
  obtain ⟨_, s, hrequests, hfound⟩ := exists_ends
    (x := Session.requests (retyping (.pointer ptr) (.pointer (.pointer ptr)) (.pointer ptr)))
    (s := .new .default)
    (g := fun _ s => s.opened.isNone && s.storedAt ⟨"param.h", 1, 6⟩ = ⟨[1, 4, 7]⟩ &&
      [1, 7].map s.levelsAndTarget = [some ([0, 1], none), some ([5, 6], none)] &&
      s.levelsAndTarget 4 = some ([2, 3, 4], none) &&
      [0, 1, 5, 6].map (link s).2.solver.solve.category = [.ptr, .arr, .ptr, .arr])
    (b := true) (by decide +kernel)
  simp only [Bool.and_eq_true, decide_eq_true_eq, Option.isNone_iff_eq_none] at hfound
  obtain ⟨⟨⟨⟨hopened, hstored⟩, hends⟩, hmiddle⟩, hsolved⟩ := hfound
  obtain ⟨p, hp, hpa⟩ := Option.map_eq_some_iff.1 (List.cons.inj hends).1
  obtain ⟨q, hq, hqa⟩ := Option.map_eq_some_iff.1 (List.cons.inj (List.cons.inj hends).2).1
  obtain ⟨r, hr, hra⟩ := Option.map_eq_some_iff.1 hmiddle
  simp only [Prod.mk.injEq] at hpa hqa hra
  have hbridged : s.arena.Bridged 1 [4] 7 := by
    have hnone : ∀ f, p.function ≠ some f := by simp [hpa.2]
    refine @Arena.Bridged.pointers _ _ _ _ [] _ _ hp hq ?_ ?_ ?_
    · simp [hr, hpa.1, hqa.1, hra.1]
    · exact fun f _ hf => absurd hf (hnone f)
    · exact fun f _ hf => absurd hf (hnone f)
  have hs : Reachable .default s := Reachable.new.requests hrequests
  obtain ⟨summary, t, hlink, hsuffices⟩ := hs.link_suffices hopened
  obtain ⟨⟨w, hequate, hclasses⟩, hagree⟩ := hsuffices ⟨"param.h", 1, 6⟩ 1 [4] 7
    (hstored ▸ List.infix_refl _) (fun _ => hbridged) 1 7 (.inl ⟨rfl, rfl⟩)
  rw [hlink] at hsolved
  exact ⟨s, summary, t, w, hs, hopened, hlink, hstored, hbridged, hends, hsolved, hequate, hclasses,
    hagree [] t (ends_pure.2 ⟨rfl, rfl⟩)⟩

/-- The second pointer has one level only. The first and the third one are left apart on their
second levels, until they are equated themselves. -/
theorem link_parts_levels :
    ∃ s summary t w, Reachable .default s ∧ s.opened = none ∧ link.Ends s summary t ∧
      s.storedAt ⟨"param.h", 1, 6⟩ = ⟨[1, 4, 7]⟩ ∧
      [1, 4, 7].map s.levelsAndTarget =
        [some ([0, 1], none), some ([2], none), some ([3, 4], none)] ∧
      t.solver.solve.category 1 = .ptr ∧ t.solver.solve.category 4 = .arr ∧
      ¬ Linked t.solver.constraints 1 4 ∧ (equate 1 7).Ends t ⟨⟩ w ∧
      Linked w.solver.constraints 1 4 := by
  let ptr : CType := .pointer .int
  obtain ⟨_, s, hrequests, hfound⟩ := exists_ends
    (x := Session.requests (retyping (.pointer ptr) ptr (.pointer ptr)))
    (s := .new .default)
    (g := fun _ s => s.opened.isNone && s.storedAt ⟨"param.h", 1, 6⟩ = ⟨[1, 4, 7]⟩ &&
      [1, 4, 7].map s.levelsAndTarget =
        [some ([0, 1], none), some ([2], none), some ([3, 4], none)] &&
      (link s).1.toOption.map LinkSummary.sharedAnchors = some 1 &&
      (link s).2.solver.solve.category 1 = .ptr && (link s).2.solver.solve.category 4 = .arr &&
      (equate 1 7 (link s).2).1.toOption = some ⟨⟩ &&
      .equal 1 4 ∈ (equate 1 7 (link s).2).2.solver.constraints)
    (b := true) (by decide +kernel)
  simp only [Bool.and_eq_true, decide_eq_true_eq, Option.isNone_iff_eq_none] at hfound
  obtain ⟨⟨⟨⟨⟨⟨⟨hopened, hstored⟩, hlevels⟩, hlink⟩, hptr⟩, harr⟩, hequate⟩, hnew⟩ := hfound
  obtain ⟨summary, hlink, -⟩ := Option.map_eq_some_iff.1 hlink
  obtain ⟨t, hlink⟩ := exists_ends_of_run hlink
  rw [hlink] at hptr harr hequate hnew
  obtain ⟨w, hequate⟩ := exists_ends_of_run hequate
  rw [hequate] at hnew
  have hs : Reachable .default s := Reachable.new.requests hrequests
  have ht : Reachable .default t := hs.ended (r := .link) (ends_discard.2 ⟨summary, hlink⟩)
  refine ⟨s, summary, t, w, hs, hopened, hlink, hstored, hlevels, hptr, harr, fun hlinked => ?_,
    hequate, .of_equal hnew⟩
  have hsame := hlinked.value_eq ht.wellFormed.solver.solves
  exact nomatch hptr.symm.trans (hsame.trans harr)

end Session

end CheckedPointers
