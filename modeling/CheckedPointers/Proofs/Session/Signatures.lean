import CheckedPointers.Proofs.Analysis.Progress
import CheckedPointers.Proofs.Session.Arity
import CheckedPointers.Proofs.Session.Standing

/-!
Signatures made on demand stay by themselves. No table of declarations but the registry names them,
nothing replaces them, and linking, which only speaks of what the variables at anchors own, passes
them by. Repair is the first to set them beside anything else.
-/
namespace CheckedPointers

open Op

namespace Constraint

def Mentions : Constraint → Atom → Prop
  | equal x y, a => a = x ∨ a = y
  | atLeast x _, a => a = x

/-- A constraint and its normal form mention the same atoms. -/
@[simp] theorem mentions_normalized {c : Constraint} {a : Atom} :
    c.normalized.Mentions a ↔ c.Mentions a := by
  cases c with
  | equal x y =>
    rw [normalized]
    split
    · exact or_comm
    · rfl
  | atLeast x k => rfl

end Constraint

namespace Anchor

instance : Std.TransOrd Anchor := inferInstanceAs <| Std.TransCmp <|
  compareLex (compareOn Anchor.file) (compareLex (compareOn Anchor.line) (compareOn Anchor.column))

instance : Std.LawfulEqOrd Anchor where
  eq_of_compare {a b} h := by
    obtain ⟨file, line, column⟩ := a
    obtain ⟨file', line', column'⟩ := b
    have h : (compare file file').then ((compare line line').then (compare column column')) = .eq :=
      h
    simpa [Ordering.then_eq_eq] using h

end Anchor

namespace Session

variable {s t : Session} {v : VarId} {a b : VarId} {options : Options} {P : Constraint → Prop}
  {α : Type}

/-! ## What linking speaks of -/

def Among (arena : Arena) (D : VarId → Prop) (c : Constraint) : Prop :=
  ∀ x, c.Mentions x → ∃ v, D v ∧ arena.Owns v x

theorem Among.mono {arena : Arena} {D D' : VarId → Prop} {c : Constraint} (h : Among arena D c)
    (hD : ∀ v, D v → D' v) : Among arena D' c := fun x hx => (h x hx).imp fun v => .imp_left (hD v)

/-- Equations between two variables mention atoms of these two. -/
theorem EquationOf.among {c : Constraint} (h : EquationOf s.arena a b c) (hs : s.WellFormed) :
    Among s.arena (fun v => v = a ∨ v = b) c := by
  obtain ⟨eqs, heqs, e, he, rfl⟩ := h
  obtain ⟨hleft, hright⟩ := hs.arena.findsBetween _ heqs e he
  have howned : ∀ x, s.arena.Owns a x ∨ s.arena.Owns b x →
      ∃ v, (v = a ∨ v = b) ∧ s.arena.Owns v x := fun x hx =>
    hx.elim (fun h => ⟨a, .inl rfl, h⟩) fun h => ⟨b, .inr rfl, h⟩
  intro x hx
  rw [Constraint.mentions_normalized] at hx
  rcases hx with rfl | rfl
  · exact howned _ hleft
  · exact howned _ hright

theorem BoundOn.among {k : Category} {c : Constraint} (h : BoundOn s.arena k v c) :
    Among s.arena (· = v) c := by
  obtain ⟨x, hx, rfl⟩ := h
  rintro y rfl
  exact ⟨v, rfl, hx⟩

/-- A chain records what its steps between members may record. -/
theorem chain_adds {f : VarId → VarId → Op α} {l : List VarId}
    (h : ∀ a ∈ l, ∀ b ∈ l, ∀ t, s.Records t → Adds P (f a b) t) : Adds P (chain f l) s := by
  induction l generalizing s with
  | nil => exact .pure
  | cons a l ih =>
    cases l with
    | nil => exact .pure
    | cons b rest =>
      rw [chain]
      apply (h a (by simp) b (by simp) s (.refl s)).bind
      intro _ t hst
      have hrest : Adds P (chain f (b :: rest)) t := ih fun x hx y hy w htw =>
        h x (List.mem_cons_of_mem a hx) y (List.mem_cons_of_mem a hy) w (hst.trans htw)
      exact hrest.bind fun _ _ _ => .pure

/-- Slots of two functions are equated. -/
theorem equateSlots_among {f g : FunctionVariable} {x y : VarSet} (hs : s.WellFormed)
    (hf : s.arena.function? a = some f) (hg : s.arena.function? b = some g) (hx : x ∈ f.slots)
    (hy : y ∈ g.slots) : Adds (Among s.arena fun v => v = a ∨ v = b) (equateSets x y) s := by
  apply (equateSets_adds x y s).mono
  rintro c ⟨p, hp, q, hq, hc⟩ z hz
  obtain ⟨v, rfl | rfl, howns⟩ := hc.among hs z hz
  · exact ⟨a, .inl rfl, (hs.arena.owns_function hf).2 ⟨x, hx, v, hp, howns⟩⟩
  · exact ⟨b, .inr rfl, (hs.arena.owns_function hg).2 ⟨y, hy, v, hq, howns⟩⟩

/-- Reconciling two functions speaks of what they own. -/
theorem reconcile_among (hs : s.WellFormed) :
    Adds (Among s.arena fun v => v = a ∨ v = b) (reconcile a b) s := by
  apply Adds.bind_get
  dsimp only
  split
  · next f g hf hg =>
    have hbound : ∀ v f, (v = a ∨ v = b) → s.arena.function? v = some f → ∀ t, s.Records t →
        Adds (Among s.arena fun v => v = a ∨ v = b) (boundSignature f .leastSafe) t := by
      intro v f hv hf t hst
      have hf' : t.arena.function? v = some f := by rw [hst.arena, hf]
      refine (boundSignature_adds .leastSafe (hst.creates.wellFormed hs) hf').mono fun c hc => ?_
      have hamong := BoundOn.among hc
      rw [hst.arena] at hamong
      exact hamong.mono fun w hw => hw ▸ hv
    apply (equateSlots_among hs hf hg List.mem_cons_self List.mem_cons_self).bind
    intro _ t hst
    split
    · refine Adds.bind (Adds.forM fun e he w htw => ?_) fun _ _ _ => .pure
      have hsw := hst.trans htw
      obtain ⟨hx, hy⟩ := List.of_mem_zip he
      have hslots := equateSlots_among (hsw.creates.wellFormed hs) (hsw.arena ▸ hf)
        (hsw.arena ▸ hg) (List.mem_cons_of_mem _ hx) (List.mem_cons_of_mem _ hy)
      rwa [hsw.arena] at hslots
    · split
      · apply (hbound a f (.inl rfl) hf t hst).bind
        intro _ w htw
        exact (hbound b g (.inr rfl) hg w (hst.trans htw)).bind fun _ _ _ => .pure
      · exact .pure
  · exact .pure

def Stands (s : Session) (v : VarId) : Prop := ∃ anchor, v ∈ s.storedAt anchor

structure SortedTables (s : Session) : Prop where
  index : s.index.Sorted
  globals : s.globals.Sorted

/-- Every session that can come about lists its keys in order. -/
theorem Reachable.sortedTables (h : Reachable options s) : s.SortedTables := by
  apply h.keeps ⟨OrderedMap.sorted_empty, OrderedMap.sorted_empty⟩
  · intro s t hs hst hsorted
    cases hst.step with
    | visits h =>
      have hst := h.visits hs
      exact ⟨hst.index ▸ hsorted.index, hst.globals ▸ hsorted.globals⟩
    | stores anchor h => exact ⟨hsorted.index.insert _ _, hsorted.globals⟩
    | notesVariants name h => exact ⟨hsorted.index, hsorted.globals.insert _ _⟩
    | _ => exact ⟨hsorted.index, hsorted.globals⟩
  · exact fun _ hsorted => ⟨hsorted.index, hsorted.globals⟩

theorem SortedTables.storedAt (h : s.SortedTables) {e : Anchor × VarSet}
    (he : e ∈ s.index.entries) : s.storedAt e.1 = e.2 := by
  rw [Session.storedAt, h.index.find?_eq_some.2 he, Option.getD_some]

theorem SortedTables.variants (h : s.SortedTables) {e : String × VarSet}
    (he : e ∈ s.globals.entries) : s.variants e.1 = e.2 := by
  rw [Session.variants, h.globals.find?_eq_some.2 he, Option.getD_some]

theorem Records.reconcile_among {D : VarId → Prop} (hst : s.Records t) (hs : s.WellFormed)
    (ha : D a) (hb : D b) : Adds (Among s.arena D) (reconcile a b) t := by
  have hadds := Session.reconcile_among (a := a) (b := b) (hst.creates.wellFormed hs)
  rw [hst.arena] at hadds
  exact hadds.mono fun c hc => hc.mono fun v hv => hv.elim (· ▸ ha) (· ▸ hb)

theorem Records.equate_among {D : VarId → Prop} (hst : s.Records t) (hs : s.WellFormed)
    (ha : D a) (hb : D b) : Adds (Among s.arena D) (equate a b) t := by
  apply (equate_adds a b t).mono
  intro c hc
  rw [hst.arena] at hc
  exact (hc.among hs).mono fun v hv => hv.elim (· ▸ ha) (· ▸ hb)

/-- Merging declarations adds what reconciling two bodiless variants of one set does. -/
theorem mergeDeclarations_adds (hst : s.Records t)
    (h : s.options.mergeDeclarations → ∀ set ∈ s.globals.values, ∀ a ∈ bodiless s.arena set,
      ∀ b ∈ bodiless s.arena set, ∀ w, s.Records w → Adds P (reconcile a b) w) :
    Adds P mergeDeclarations t := by
  have hall : s.options.mergeDeclarations → ∀ (sets : List VarSet),
      (∀ set ∈ sets, set ∈ s.globals.values) → ∀ w, s.Records w →
        Adds P (sets.mapM fun set => chain reconcile (bodiless s.arena set)) w := by
    intro hmerge sets
    induction sets with
    | nil => exact fun _ _ _ => .pure
    | cons x rest ih =>
      intro hsets w hsw
      obtain ⟨hx, hrest⟩ := List.forall_mem_cons.1 hsets
      rw [List.mapM_cons]
      refine Adds.bind (chain_adds fun a ha b hb z hwz => h hmerge x hx a ha b hb z
        (hsw.trans hwz)) fun _ z hwz => (ih hrest z (hsw.trans hwz)).bind fun _ _ _ => .pure
  apply Adds.bind_get
  split
  · next hmerge =>
    rw [show t.options = s.options by rw [hst.only]] at hmerge
    rw [show t.globals = s.globals by rw [hst.only], hst.arena]
    exact (hall hmerge _ (fun _ h => h) t hst).bind fun _ _ _ => .pure
  · exact .pure

theorem mergeDeclarations_among {D : VarId → Prop} (hst : s.Records t) (hs : s.WellFormed)
    (h : ∀ set ∈ s.globals.values, ∀ v ∈ bodiless s.arena set, D v) :
    Adds (Among s.arena D) mergeDeclarations t :=
  mergeDeclarations_adds hst fun _ set hset a ha b hb _ hsw =>
    hsw.reconcile_among hs (h set hset a ha) (h set hset b hb)

/-- Linking speaks only of what the variables at anchors own. -/
theorem link_among (hs : s.WellFormed) (hstanding : s.Standing) (hsorted : s.SortedTables) :
    Adds (Among s.arena s.Stands) link s := by
  have hvariants : ∀ set ∈ s.globals.values, ∀ v ∈ set, s.Stands v := by
    intro set hset v hv
    obtain ⟨e, he, rfl⟩ := List.mem_map.1 hset
    exact hstanding.variants e.1 v (hsorted.variants he ▸ hv)
  apply Adds.bind_get
  dsimp only
  split
  · exact Meets.fault
  · refine Adds.bind (Adds.forM fun set hset t hst => ?_) fun _ t hst => ?_
    · obtain ⟨e, he, rfl⟩ := List.mem_map.1 (List.mem_filter.1 hset).1
      have hstands : ∀ v ∈ e.2.members, s.Stands v := fun v hv =>
        ⟨e.1, hsorted.storedAt he ▸ hv⟩
      exact (chain_adds fun a ha b hb w htw =>
        (hst.trans htw).equate_among hs (hstands a ha) (hstands b hb)).discard
    apply (mergeDeclarations_among hst hs fun set hset v hv =>
      hvariants set hset v (List.mem_filter.1 hv).1).bind
    intro merged w htw
    have hsw := hst.trans htw
    refine Adds.bind (Adds.forM fun name _ z hwz => ?_) fun _ z hwz => Adds.bind_get .pure
    have hsz := hsw.trans hwz
    apply (boundName_adds name (hsz.creates.wellFormed hs)).mono
    rintro c ⟨v, hv, hc⟩
    rw [hsz.variants] at hv
    rw [hsz.arena] at hc
    exact (BoundOn.among hc).mono fun w hw => hw ▸ hstanding.variants name v hv

/-! ## Apart until repair -/

/-- A function variable is declared under the key, and neither it nor anything in its slots stands
at an anchor, is a variant of a name or is noted as a definition. -/
structure SetApart (s : Session) (key : FunctionKey) (v : VarId) : Prop where
  function : s.arena.isFunction v
  declared : v ∈ s.pairing.declaredUnder key
  unplaced : ∀ p, s.arena.Within p v → ∀ anchor, p ∉ s.storedAt anchor
  unnamed : ∀ p, s.arena.Within p v → ∀ name, p ∉ s.variants name
  undefined : ∀ p, s.arena.Within p v → ¬ s.Registered p

/-- A signature on demand is alone under its key, and stands nowhere else. -/
theorem Reachable.setApart {key : FunctionKey} {set : VarSet} (hs : Reachable options s)
    (h : s.implicits.find? key = some set) : ∃ v, set = .singleton v ∧ s.SetApart key v := by
  have hwf := hs.wellFormed
  obtain ⟨v, rfl, hv⟩ := hs.standing.signatures key set h
  have hfun : s.arena.isFunction v :=
    hwf.implicits _ (OrderedMap.mem_of_find? h) v ((VarSet.mem_singleton v v).2 rfl)
  refine ⟨v, rfl, hfun, hv.declared, hv.unplaced, fun p hp name hname => ?_, ?_⟩
  · obtain ⟨anchor, hanchor⟩ := hs.standing.variants name p hname
    exact hv.unplaced p hp anchor hanchor
  · rintro p (rfl | ⟨f, hf, slot, hslot, hp⟩) hregistered
    · exact (hs.separate.functions p p hregistered ⟨key, hv.declared⟩).1 rfl
    · exact Arena.not_isFunction ((hwf.arena.slots hf hslot).isPointer hp)
        (hregistered.isFunction hwf)

/-- A signature made on demand shares no atom with what stands at an anchor. -/
theorem Reachable.signature_foreign {key : FunctionKey} {set : VarSet} {c : Constraint} {x : Atom}
    (hs : Reachable options s) (h : s.implicits.find? key = some set) (hv : v ∈ set)
    (hx : s.arena.Owns v x) (hc : Among s.arena s.Stands c) : ¬ c.Mentions x := by
  intro hmention
  obtain ⟨w, hw, hwx⟩ := hc x hmention
  obtain rfl := hs.parted.onDemand v w (.signature h hv) (.inl hw) ⟨x, hx, hwx⟩
  obtain ⟨v', rfl, hapart⟩ := hs.setApart h
  obtain rfl := (VarSet.mem_singleton v' v).1 hv
  obtain ⟨anchor, hanchor⟩ := hw
  exact hapart.unplaced v (.inl rfl) anchor hanchor

/-- What was made on demand for a key is kept. -/
theorem Step.implicits_kept {key : FunctionKey} {set : VarSet} (hst : s.Step t)
    (hs : s.WellFormed) (h : s.implicits.find? key = some set) :
    t.implicits.find? key = some set := by
  cases hst with
  | visits hst => exact (hst.visits hs).implicits key set h
  | _ => exact h

/-- Under each key for which a signature was made on demand stands one function variable, apart from
all that is declared; whatever is asked of the session afterwards, on this unit or others, it is
still there. When no unit is open linking ends, and no constraint that it records mentions an atom
of such a signature. -/
theorem Reachable.signatures_stay_apart (hs : Reachable options s) :
    (∀ key set, s.implicits.find? key = some set →
      (∃ v, set = .singleton v ∧ s.SetApart key v) ∧
      ∀ rs t, (Session.requests rs).Ends s ⟨⟩ t → t.implicits.find? key = some set) ∧
    (s.opened = none → ∃ summary t, link.Ends s summary t ∧
      ∀ c ∈ t.solver.constraints, c ∉ s.solver.constraints →
        ∀ key set, s.implicits.find? key = some set →
          ∀ v ∈ set, ∀ a, s.arena.Owns v a → ¬ c.Mentions a) := by
  refine ⟨fun key set h => ⟨hs.setApart h, fun rs t hrequests => ?_⟩, fun hopened => ?_⟩
  · exact keeps_of_requests (fun _ _ hs hst h => hst.step.implicits_kept hs h) (fun _ h => h) hs
      hrequests h
  · have hidle : s.Idle := ⟨hs.wellFormed, hopened⟩
    obtain ⟨summary, t, hlink⟩ := (link_failsOnly hidle).ends
    have hadded := ((link_among hs.wellFormed hs.standing hs.sortedTables).of_ends hlink).2
    refine ⟨summary, t, hlink, fun c hc hnew key set h v hv a ha => ?_⟩
    exact hs.signature_foreign h hv ha ((hadded c hc).resolve_left hnew)

/-- A function without a prototype is called and given a signature, and then others are declared in
other units. -/
def quotingAmongOthers : List Request := quotingRequests ++ [.exit] ++ disagreeing

/-- The signature is variable 11, with one atom; linking records six constraints and none on it. It
is there when the unit is followed once more. -/
theorem Reachable.signatures_stay_apart_quotingUnit :
    ∃ s summary t w, Reachable .default s ∧ link.Ends s summary t ∧ summary.newConstraints = 6 ∧
      s.implicits.find? (.of "a.c" 3 "g") = some (.singleton 11) ∧
      s.SetApart (.of "a.c" 3 "g") 11 ∧ s.arena.Owns 11 8 ∧
      (∀ c ∈ t.solver.constraints, c ∉ s.solver.constraints → ¬ c.Mentions 8) ∧
      (Session.requests [.enter quotingUnit, .flow quotingUnit]).Ends s ⟨⟩ w ∧
      w.implicits.find? (.of "a.c" 3 "g") = some (.singleton 11) := by
  obtain ⟨_, s, hrequests, hfound⟩ := exists_ends (x := Session.requests quotingAmongOthers)
    (s := .new .default)
    (g := fun _ s => s.opened.isNone &&
      s.implicits.find? (.of "a.c" 3 "g") = some (.singleton 11) &&
      s.arena.atoms? 11 = some [8] &&
      (link s).1.toOption.map LinkSummary.newConstraints = some 6 &&
      (Session.requests [.enter quotingUnit, .flow quotingUnit] s).1.toOption = some ⟨⟩)
    (b := true) (by decide +kernel)
  simp only [Bool.and_eq_true, decide_eq_true_eq, Option.isNone_iff_eq_none] at hfound
  obtain ⟨⟨⟨⟨hopened, hset⟩, hatoms⟩, hnew⟩, hlater⟩ := hfound
  have hs : Reachable .default s := Reachable.new.requests hrequests
  obtain ⟨hkept, hlinked⟩ := hs.signatures_stay_apart
  obtain ⟨⟨v, hv, hapart⟩, hstays⟩ := hkept _ _ hset
  cases hv
  obtain ⟨summary, t, hlink, hnone⟩ := hlinked hopened
  obtain ⟨w, hw⟩ := exists_ends_of_run hlater
  have howns : s.arena.Owns 11 8 := ⟨[8], hatoms, by simp⟩
  refine ⟨s, summary, t, w, hs, hlink, ?_, hset, hapart, howns, fun c hc hc' => ?_, hw,
    hstays _ w hw⟩
  · have hrun : link s = (.ok summary, t) := hlink
    rw [hrun] at hnew
    exact Option.some.inj hnew
  · exact hnone c hc hc' _ _ hset 11 ((VarSet.mem_singleton 11 11).2 rfl) 8 howns

end Session

end CheckedPointers
