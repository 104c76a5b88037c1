import CheckedPointers.Proofs.Analysis.Seating
import CheckedPointers.Proofs.Session.Below
import CheckedPointers.Proofs.Session.Stability
import CheckedPointers.Proofs.Session.Targetless
import Mathlib.Data.Set.Function

/-!
Subscripts and dereferences around an expression. Each takes one level off every pointer that the
expression denotes, and pointers without a level left drop out. The variables below the pointers are
looked up in a table that all units share, so what counts is that the table holds below a variable
nothing but the rest of this variable.
-/
namespace CheckedPointers

open Op

namespace TranslationUnit

variable (u : TranslationUnit)

def Indirects (outer inner : ExprId) : Prop :=
  (∃ i, u.expr outer = .ok (.subscript inner i)) ∨ u.expr outer = .ok (.unary .deref inner)

/-- The last expression wraps `e` in so many subscripts and dereferences, `first` next to it. -/
inductive Indirection (e first : ExprId) : Nat → ExprId → Prop
  | once (h : u.Indirects first e) : Indirection e first 1 first
  | again {k : Nat} {inner outer : ExprId} (h : Indirection e first k inner)
      (hout : u.Indirects outer inner) : Indirection e first (k + 1) outer

end TranslationUnit

namespace Arena

variable {arena arena' : Arena} {set below below' : VarSet} {v : VarId} {j k : Nat}

def deeper (arena : Arena) (set : VarSet) (k : Nat) : Set VarId :=
  {v | v ∈ set ∧ ∃ p, arena.pointer? v = some p ∧ k < p.atoms.length}

/-- The variables `below` are one for each pointer of more than `k` levels in a set, and all of it
but its first `k` levels. -/
def Strips (arena : Arena) (set : VarSet) (k : Nat) (below : VarSet) : Prop :=
  ∃ f : VarId → VarId, Set.BijOn f (arena.deeper set k) {d | d ∈ below} ∧
    ∀ v ∈ set, ∀ p, arena.pointer? v = some p → k < p.atoms.length →
      arena.pointer? (f v) = some { p with atoms := p.atoms.drop k }

/-- What lies below pointers are pointers. -/
theorem Strips.isPointer {d : VarId} (h : arena.Strips set k below) (hd : d ∈ below) :
    arena.isPointer d := by
  obtain ⟨f, hf, hrest⟩ := h
  obtain ⟨v, ⟨hv, p, hp, hlong⟩, rfl⟩ := hf.surjOn hd
  exact isPointer_iff.2 ⟨_, hrest v hv p hp hlong⟩

theorem deeper_grows (hg : arena.Grows arena') (hset : ∀ v ∈ set, v < arena.size) :
    arena'.deeper set k = arena.deeper set k := by
  ext v
  refine and_congr_right fun hv => ?_
  rw [hg.pointer?_eq (hset v hv)]

theorem Strips.grows (h : arena.Strips set k below) (hg : arena.Grows arena')
    (hset : ∀ v ∈ set, v < arena.size) : arena'.Strips set k below := by
  obtain ⟨f, hf, hrest⟩ := h
  refine ⟨f, deeper_grows hg hset ▸ hf, fun v hv p hp hlong => ?_⟩
  rw [hg.pointer?_eq (hset v hv)] at hp
  exact hg.pointer? (hrest v hv p hp hlong)

/-- Taking off `j` levels and then `k` levels takes off `j + k` levels. -/
theorem Strips.trans (h : arena.Strips set j below) (h' : arena.Strips below k below') :
    arena.Strips set (j + k) below' := by
  obtain ⟨f, hf, hrest⟩ := h
  obtain ⟨g, hg, hrest'⟩ := h'
  have hsub : arena.deeper set (j + k) ⊆ arena.deeper set j := fun v ⟨hv, p, hp, hlong⟩ =>
    ⟨hv, p, hp, Nat.lt_of_le_of_lt (Nat.le_add_right j k) hlong⟩
  -- the pointers of more than `j + k` levels go to those of more than `k` levels
  have hfirst : Set.BijOn f (arena.deeper set (j + k)) (arena.deeper below k) := by
    refine ⟨fun v hv => ?_, hf.injOn.mono hsub, fun d hd => ?_⟩
    · obtain ⟨hmem, p, hp, hlong⟩ := hv
      refine ⟨hf.mapsTo (hsub ⟨hmem, p, hp, hlong⟩), _, hrest v hmem p hp (by omega), ?_⟩
      rw [List.length_drop]
      omega
    · obtain ⟨hmem, q, hq, hlong⟩ := hd
      obtain ⟨v, ⟨hv, p, hp, hjlong⟩, rfl⟩ := hf.surjOn hmem
      cases (hrest v hv p hp hjlong).symm.trans hq
      rw [List.length_drop] at hlong
      exact ⟨v, ⟨hv, p, hp, by omega⟩, rfl⟩
  refine ⟨g ∘ f, hg.comp hfirst, fun v hv p hp hlong => ?_⟩
  have hmem : f v ∈ below := hf.mapsTo ⟨hv, p, hp, by omega⟩
  have hfv := hrest v hv p hp (by omega)
  have hleft : k < (p.atoms.drop j).length := by
    rw [List.length_drop]
    omega
  rw [Function.comp_apply, hrest' (f v) hmem _ hfv hleft, List.drop_drop]

end Arena

namespace Session

variable {options : Options} {u : TranslationUnit} {view : Viewpoint} {s t w : Session}
  {set below below' : VarSet} {e first inner outer : ExprId} {v : VarId} {j k m n : Nat}

/-! ## One level -/

/-- A pointer below which something is known to lie has a level left. -/
theorem KnowsBelow.long {d : VarId} {p : PointerVariable} (h : s.KnowsBelow)
    (hv : s.pointees.find? v = some (some d)) (hp : s.arena.pointer? v = some p) :
    1 < p.atoms.length := by
  obtain ⟨-, p', q, hp', hq, -⟩ := h.lies v _ hv
  cases hp.symm.trans hp'
  by_contra hshort
  rw [PointerVariable.dereferenced?_eq_none.2 (by omega)] at hq
  cases hq

/-- Below a pointer with a level left something lies. -/
theorem KnowsBelow.found {made : Option VarId} {p : PointerVariable} (h : s.KnowsBelow)
    (hv : s.pointees.find? v = some made) (hp : s.arena.pointer? v = some p)
    (hlong : 1 < p.atoms.length) : ∃ d, made = some d := by
  cases made with
  | some d => exact ⟨d, rfl⟩
  | none =>
    rcases h.bottom hv with hfun | ⟨p', hp', hshort⟩
    · exact absurd hfun (Arena.not_isFunction (Arena.isPointer_iff.2 ⟨p, hp⟩))
    · cases hp.symm.trans hp'
      omega

/-- What is known to lie below the variables of a set takes off one level. -/
theorem KnowsBelow.strips (h : s.KnowsBelow)
    (hall : ∀ v ∈ set, ∃ made, s.pointees.find? v = some made)
    (hbelow : ∀ d, d ∈ below ↔ ∃ v ∈ set, s.pointees.find? v = some (some d)) :
    s.arena.Strips set 1 below := by
  let f : VarId → VarId := fun v => ((s.pointees.find? v).bind id).getD 0
  have hf : ∀ {v d}, s.pointees.find? v = some (some d) → f v = d := fun hv => by
    simp only [f, hv, Option.bind_some, id, Option.getD_some]
  have hdeeper : ∀ v ∈ s.arena.deeper set 1, s.pointees.find? v = some (some (f v)) := by
    rintro v ⟨hv, p, hp, hlong⟩
    obtain ⟨made, hmade⟩ := hall v hv
    obtain ⟨d, rfl⟩ := h.found hmade hp hlong
    rw [hf hmade, hmade]
  refine ⟨f, ⟨fun v hv => ?_, fun v hv w hw heq => ?_, fun d hd => ?_⟩, fun v hv p hp hlong => ?_⟩
  · exact (hbelow (f v)).2 ⟨v, hv.1, hdeeper v hv⟩
  · exact h.once v w (f v) (hdeeper v hv) (heq ▸ hdeeper w hw)
  · obtain ⟨v, hv, hfound⟩ := (hbelow d).1 hd
    obtain ⟨p, -, hp, -⟩ := h.rest hfound
    exact ⟨v, ⟨hv, p, hp, h.long hfound hp⟩, hf hfound⟩
  · obtain ⟨p', a, hp', -, hrest⟩ := h.rest (hdeeper v ⟨hv, p, hp, hlong⟩)
    cases hp.symm.trans hp'
    rw [hrest, List.drop_one]

theorem KnowsBelow.looking (h : s.KnowsBelow) (hs : s.WellFormed)
    (hst : Frame.looking.rel s t) : t.KnowsBelow :=
  looking_keeps (fun _ _ hs hst h => h.step hs (.visits (.looks hst))) hst hs h

theorem Reachable.knowsBelow (h : Reachable options s) : s.KnowsBelow :=
  h.keeps ⟨fun _ _ hv => (nomatch hv), fun _ _ _ hv => nomatch hv⟩
    (fun _ _ hs hst hknows => hknows.step hs hst.step) fun _ h => ⟨h.lies, h.once⟩

/-- Dereferenced variables come in ascending order, as a set keeps them. -/
theorem dereferenceAll_ascending {vs : List VarId} (h : (dereferenceAll vs).Ends s set t) :
    set.Ascending := by
  induction vs generalizing s set with
  | nil =>
    obtain ⟨rfl, -⟩ := ends_pure.1 h
    exact VarSet.ascending_empty
  | cons v rest ih =>
    obtain ⟨made, w, -, h⟩ := ends_bind.1 h
    obtain ⟨others, z, hothers, h⟩ := ends_bind.1 h
    obtain ⟨rfl, rfl⟩ := ends_pure.1 h
    have hothers := ih hothers
    cases made with
    | none => exact hothers
    | some d => exact hothers.insert d

/-- The answer `below` of a look that went on from `s` to `t` is what lies `k` levels below the
set. -/
structure StrippedIn (s t : Session) (set : VarSet) (k : Nat) (below : VarSet) : Prop where
  visits : s.Visits t
  knows : t.KnowsBelow
  ascending : below.Ascending
  strips : t.arena.Strips set k below

theorem StrippedIn.holds (h : StrippedIn s t set k below) : Holds below t :=
  fun _ hd => Arena.lt_of_isPointer (h.strips.isPointer hd)

theorem StrippedIn.trans (h : StrippedIn s t set j below) (h' : StrippedIn t w below k below')
    (hset : Holds set s) : StrippedIn s w set (j + k) below' where
  visits := h.visits.trans h'.visits
  knows := h'.knows
  ascending := h'.ascending
  strips := (h.strips.grows h'.visits.arena (hset.extends h.visits.toExtends)).trans h'.strips

/-- Dereferencing a set cannot fail, and takes off one level. -/
theorem dereference_strips (hs : s.WellFormed) (hknows : s.KnowsBelow) (hset : Holds set s) :
    ∃ below t, (dereference set).Ends s below t ∧ StrippedIn s t set 1 below := by
  obtain ⟨below, t, hends⟩ := (dereferenceAll_failsOnly set.members).ends
  obtain ⟨hst, hall, hbelow⟩ := (dereferenceAll_found set.members hs).of_ends hends
  have hknows := hknows.looking hs ((dereferenceAll_looking hset).of_ends hends)
  exact ⟨below, t, hends, hst, hknows, dereferenceAll_ascending hends, hknows.strips hall hbelow⟩

/-! ## Any number of levels -/

theorem denoteWithin_cutShort_of_le (h : m ≤ n) :
    (denoteWithin u m e view).CutShort (denoteWithin u n e view) := by
  induction h with
  | refl => exact .refl
  | step _ ih => exact ih.trans (denoteWithin_cutShort _ e view)

end Session

namespace TranslationUnit

open Session

variable {u : TranslationUnit} {view : Viewpoint} {s t w : Session} {set below : VarSet}
  {e first inner outer : ExprId} {n : Nat}

/-- A look at the wrapping fails as the look at what it wraps does. -/
theorem Indirects.fails {f : Failure} (hout : u.Indirects outer inner)
    (h : denoteWithin u n inner view s = (.error f, t)) :
    denoteWithin u (n + 1) outer view s = (.error f, t) := by
  rcases hout with ⟨i, hx⟩ | hx <;>
  · rw [denoteWithin, hx, lift_ok_bind]
    dsimp only
    rw [bind_run, h]

/-- Where no function is dereferenced, what is wrapped is dereferenced next. -/
theorem Indirects.ends (hout : u.Indirects outer inner)
    (hinner : (denoteWithin u n inner view).Ends s set t)
    (hsound : u.expr outer = .ok (.unary .deref inner) → ∀ v ∈ set, ¬ t.arena.isFunction v)
    (hbelow : (dereference set).Ends t below w) :
    (denoteWithin u (n + 1) outer view).Ends s below w := by
  rw [denoteWithin]
  rcases hout with ⟨i, hx⟩ | hx
  · rw [hx, lift_ok_bind]
    exact ends_bind.2 ⟨set, t, hinner, hbelow⟩
  · have hnone : set.members.any t.arena.isFunction = false := List.any_eq_false.2 (hsound hx)
    rw [hx, lift_ok_bind]
    refine ends_bind.2 ⟨set, t, hinner, ends_bind.2 ⟨t, t, ends_get.2 ⟨rfl, rfl⟩, ?_⟩⟩
    simp only [hnone, Bool.false_eq_true, if_false]
    exact hbelow

/-- A function cannot be dereferenced. -/
theorem functionDereferenced (hx : u.expr outer = .ok (.unary .deref inner))
    (hinner : (denoteWithin u n inner view).Ends s set t) (hfun : ∃ v ∈ set, t.arena.isFunction v) :
    denoteWithin u (n + 1) outer view s =
      (.error (.unresolved (.functionDereferenced outer)), t) := by
  have hany : set.members.any t.arena.isFunction = true := List.any_eq_true.2 hfun
  rw [denoteWithin, hx, lift_ok_bind]
  dsimp only
  rw [bind_run, hinner]
  dsimp only
  rw [bind_run, get_run]
  simp only [hany, if_true]
  rfl

end TranslationUnit

namespace Session

variable {options : Options} {u : TranslationUnit} {view : Viewpoint} {s t w : Session}
  {set below : VarSet} {e first outer : ExprId} {k m n : Nat}

def TooDeep (u : TranslationUnit) (n : Nat) (e : ExprId) (view : Viewpoint) (s : Session) : Prop :=
  ∃ x t, denoteWithin u n e view s = (.error (.unresolved (.tooDeep x)), t)

/-- At what has been looked at once a shorter look gives up or ends alike. -/
theorem tooDeep_or_ends (h : (denoteWithin u n e view).Ends s set t) (hmn : m ≤ n) :
    TooDeep u m e view s ∨ (denoteWithin u m e view).Ends s set t := by
  rcases denoteWithin_cutShort_of_le hmn s with heq | hdeep
  · exact .inr (heq.trans h)
  · exact .inl hdeep

/-- As many levels are taken off as there are subscripts and dereferences, if no function is
dereferenced first; later there are only pointers. -/
theorem tooDeep_or_stripped (h : u.Indirection e first k outer) (ht : t.WellFormed)
    (hknows : t.KnowsBelow) (hset : Holds set t)
    (he : ∀ m ≤ n, TooDeep u m e view s ∨ (denoteWithin u m e view).Ends s set t)
    (hsound : u.expr first = .ok (.unary .deref e) → ∀ v ∈ set, ¬ t.arena.isFunction v) :
    ∀ m ≤ n, TooDeep u m outer view s ∨
      ∃ below w, (denoteWithin u m outer view).Ends s below w ∧ StrippedIn t w set k below := by
  induction h with
  | once hout =>
    rintro (_ | m) hm
    · exact .inl ⟨_, _, rfl⟩
    rcases he m (Nat.le_of_succ_le hm) with ⟨x, z, hdeep⟩ | hends
    · exact .inl ⟨x, z, hout.fails hdeep⟩
    · obtain ⟨below, w, hbelow, hlies⟩ := dereference_strips ht hknows hset
      exact .inr ⟨below, w, hout.ends hends hsound hbelow, hlies⟩
  | again _ hout ih =>
    rintro (_ | m) hm
    · exact .inl ⟨_, _, rfl⟩
    rcases ih m (Nat.le_of_succ_le hm) with ⟨x, z, hdeep⟩ | ⟨below, w, hends, hlies⟩
    · exact .inl ⟨x, z, hout.fails hdeep⟩
    · obtain ⟨below', z, hbelow, hlies'⟩ :=
        dereference_strips (hlies.visits.wellFormed ht) hlies.knows hlies.holds
      have hpointers : ∀ v ∈ below, ¬ w.arena.isFunction v := fun v hv =>
        Arena.not_isFunction (hlies.strips.isPointer hv)
      exact .inr ⟨below', z, hout.ends hends (fun _ => hpointers) hbelow, hlies.trans hlies' hset⟩

/-- A function that is dereferenced first is what the whole look fails of. -/
theorem tooDeep_or_functionDereferenced (h : u.Indirection e first k outer)
    (hx : u.expr first = .ok (.unary .deref e)) (hfun : ∃ v ∈ set, t.arena.isFunction v)
    (he : ∀ m ≤ n, TooDeep u m e view s ∨ (denoteWithin u m e view).Ends s set t) :
    ∀ m ≤ n, TooDeep u m outer view s ∨ denoteWithin u m outer view s =
      (.error (.unresolved (.functionDereferenced first)), t) := by
  induction h with
  | once hout =>
    rintro (_ | m) hm
    · exact .inl ⟨_, _, rfl⟩
    rcases he m (Nat.le_of_succ_le hm) with ⟨x, z, hdeep⟩ | hends
    · exact .inl ⟨x, z, hout.fails hdeep⟩
    · exact .inr (TranslationUnit.functionDereferenced hx hends hfun)
  | again _ hout ih =>
    rintro (_ | m) hm
    · exact .inl ⟨_, _, rfl⟩
    rcases ih m (Nat.le_of_succ_le hm) with ⟨x, z, hdeep⟩ | hfails
    · exact .inl ⟨x, z, hout.fails hdeep⟩
    · exact .inr (hout.fails hfails)

/-- Whether a unit is open does not depend on what is looked at. -/
theorem denote_run_of_ends (h : (denote u e view).Ends s set t) (e' : ExprId) :
    denote u e' view s = denoteWithin u (expressionLimit + 1) e' view s := by
  obtain ⟨_, w, hopen, -⟩ := ends_bind.1 h
  obtain rfl := eq_of_requireOpen hopen
  rw [denote, bind_run, hopen]

/-- Subscripts and dereferences around an expression, any `k` of them that do not nest too deeply.
Unless the innermost one dereferences a function, they denote one pointer for each pointer of more
than `k` levels that the expression denotes, the same one without its first `k` levels, and nothing
else. If it does, this is what the look fails of. -/
theorem Reachable.indirection_strips (hs : Reachable options s)
    (he : (denote u e view).Ends s set t) (h : u.Indirection e first k outer)
    (hdeep : ∀ x w, denote u outer view s ≠ (.error (.unresolved (.tooDeep x)), w)) :
    (u.expr first = .ok (.unary .deref e) → (∃ v ∈ set, t.arena.isFunction v) →
      denote u outer view s = (.error (.unresolved (.functionDereferenced first)), t)) ∧
    ((u.expr first = .ok (.unary .deref e) → ∀ v ∈ set, ¬ t.arena.isFunction v) →
      ∃ below w, (denote u outer view).Ends s below w ∧ t.Visits w ∧ below.Ascending ∧
        w.arena.Strips set k below) := by
  rw [denote_run_of_ends he outer] at hdeep ⊢
  have hrun : (denoteWithin u (expressionLimit + 1) e view).Ends s set t :=
    (denote_run_of_ends he e).symm.trans he
  have hshorter := fun m => tooDeep_or_ends (m := m) hrun
  have hdeep : ¬ TooDeep u (expressionLimit + 1) outer view s := fun ⟨x, w, hx⟩ => hdeep x w hx
  constructor
  · intro hx hfun
    exact (tooDeep_or_functionDereferenced h hx hfun hshorter _ le_rfl).resolve_left hdeep
  · intro hsound
    obtain ⟨hst, hset, -⟩ := (denote_recalls u e view hs.wellFormed).of_ends he
    have hst : s.Visits t := hst
    have hknows : t.KnowsBelow := hs.knowsBelow.looking hs.wellFormed (denote_looking.of_ends he)
    obtain ⟨below, w, hends, hlies⟩ :=
      (tooDeep_or_stripped h (hst.wellFormed hs.wellFormed) hknows hset hshorter hsound _
        le_rfl).resolve_left hdeep
    exact ⟨below, w, (denote_run_of_ends he outer).trans hends, hlies.visits, hlies.ascending,
      hlies.strips⟩

/-- Pointers of three levels, one level and two levels are joined, subscripted and dereferenced; a
function is dereferenced and subscripted. -/
def nestedUnit : TranslationUnit :=
  { id := 0
    file := "a.c"
    decls := #[
      ⟨"p", ⟨"a.c", 1, 1⟩, false, .var (.pointer (.pointer (.pointer .int))) true none none⟩,
      ⟨"q", ⟨"a.c", 2, 1⟩, false, .var (.pointer .int) true none none⟩,
      ⟨"r", ⟨"a.c", 3, 1⟩, false, .var (.pointer (.pointer .int)) true none none⟩,
      ⟨"f", ⟨"a.c", 4, 1⟩, false, .function ⟨.pointer .int, [], false, true⟩ [] true none⟩]
    exprs := #[.declRef 0, .declRef 1, .binary .comma 0 1, .declRef 2, .binary .comma 2 3,
      .intLiteral 0, .subscript 4 5, .unary .deref 6, .declRef 3, .unary .deref 8, .intLiteral 0,
      .subscript 9 10]
    topLevel := [0, 1, 2, 3] }

/-- Of the three pointers the longest one is left, with its last level. The function cannot be
dereferenced. -/
theorem Reachable.indirection_strips_nestedUnit :
    ∃ s t below w t', Reachable .default s ∧ (denote nestedUnit 4 .body).Ends s ⟨[0, 1, 2]⟩ t ∧
      (denote nestedUnit 7 .body).Ends s below w ∧ below.size = 1 ∧ w.arena.levels 0 = [0, 1, 2] ∧
      w.arena.Strips ⟨[0, 1, 2]⟩ 2 below ∧
      denote nestedUnit 11 .body s = (.error (.unresolved (.functionDereferenced 9)), t') := by
  obtain ⟨_, s, hrequests, hlook⟩ := exists_ends
    (x := Session.requests (.enter nestedUnit :: [0, 1, 2, 3].map (.giveVariables nestedUnit)))
    (s := .new .default)
    (g := fun _ s => (denote nestedUnit 4 .body s).1.toOption = some ⟨[0, 1, 2]⟩ &&
      (denote nestedUnit 8 .body s).1.toOption = some ⟨[4]⟩ &&
      (denote nestedUnit 8 .body s).2.arena.isFunction 4 &&
      (denote nestedUnit 7 .body s).1.toOption.map VarSet.size = some 1 &&
      (denote nestedUnit 7 .body s).2.arena.levels 0 = [0, 1, 2] &&
      match (denote nestedUnit 11 .body s).1 with
      | .ok _ | .error (.fault _) => false
      | .error (.unresolved e) => e = .functionDereferenced 9)
    (b := true) (by decide +kernel)
  simp only [Bool.and_eq_true, decide_eq_true_eq] at hlook
  obtain ⟨⟨⟨⟨⟨hjoined, hnamed⟩, hfun⟩, hsize⟩, hlevels⟩, hshallow⟩ := hlook
  obtain ⟨t, hjoined⟩ := exists_ends_of_run hjoined
  obtain ⟨t', hnamed⟩ := exists_ends_of_run hnamed
  obtain ⟨below, hrun, hsize⟩ := Option.map_eq_some_iff.1 hsize
  obtain ⟨w, hends⟩ := exists_ends_of_run hrun
  have hs : Reachable .default s := Reachable.new.requests hrequests
  have hwraps : nestedUnit.Indirection 4 6 2 7 := .again (.once (.inl ⟨5, rfl⟩)) (.inr rfl)
  have hwraps' : nestedUnit.Indirection 8 9 2 11 := .again (.once (.inr rfl)) (.inl ⟨10, rfl⟩)
  obtain ⟨below', w', hends', -, -, hstrips⟩ := (hs.indirection_strips hjoined hwraps
    fun x z hz => by rw [hends] at hz; cases hz).2 fun hx => by cases hx
  obtain ⟨rfl, rfl⟩ := hends.unique hends'
  have hfails := (hs.indirection_strips hnamed hwraps' fun x z hz => by
    rw [hz] at hshallow; simp at hshallow).1 rfl ⟨4, by decide, by rwa [hnamed] at hfun⟩
  rw [hends] at hlevels
  exact ⟨s, t, below, w, t', hs, hjoined, hends, hsize, hlevels, hstrips, hfails⟩

end Session

end CheckedPointers
