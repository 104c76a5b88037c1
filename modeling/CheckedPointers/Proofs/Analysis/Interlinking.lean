import CheckedPointers.Proofs.Analysis.Counterparts
import CheckedPointers.Proofs.Session.Merging

/-!
Linking what two orders of the same units leave. Merging goes from neighbour to neighbour among the
bodiless variants of a name, and in the other order their neighbours are others. Where all of them
have one shape that does not matter: whichever are neighbours, any two of them coincide in the end.
-/
namespace CheckedPointers

open Op TranslationUnit

variable {ρ σ : Renaming}

namespace ConstraintSystem

/-- Atoms that are the same in every solution. -/
theorem equivalence_same (s : ConstraintSystem) : Equivalence s.verdict.same where
  refl _ _ _ := rfl
  symm h value hv := (h value hv).symm
  trans h h' value hv := (h value hv).trans (h' value hv)

end ConstraintSystem

namespace Arena

variable {arena arena' : Arena} {a b v : VarId} {x : Atom} {n : Nat}

/-- What has one shape has one shape elsewhere. -/
theorem Embeds.sameShape (h : arena.Embeds ρ arena') (hab : arena.SameShape a b) :
    arena'.SameShape (ρ.var a) (ρ.var b) := by
  have hempty : ∀ set : VarSet, set.rename ρ = .empty ↔ set = .empty := fun ⟨members⟩ => by
    simp [VarSet.rename, VarSet.empty]
  induction hab with
  | pointers hp hq levels attached _ ih =>
    refine .pointers (h.pointer? hp) (h.pointer? hq) ?_ ?_ fun f g hf hg => ?_
    · simpa [PointerVariable.rename] using levels
    · simpa [PointerVariable.rename] using attached
    · obtain ⟨f, hf', rfl⟩ := Option.map_eq_some_iff.1 hf
      obtain ⟨g, hg', rfl⟩ := Option.map_eq_some_iff.1 hg
      exact ih f g hf' hg'
  | @functions a b f g hf hg params filled _ ih =>
    have hslot : ∀ {f : FunctionVariable} {i : Nat} {slot : VarSet},
        (f.rename ρ).slots[i]? = some slot → ∃ set, f.slots[i]? = some set ∧ set.rename ρ = slot :=
      fun hslot => by
        rw [FunctionVariable.slots_rename, List.getElem?_map] at hslot
        exact Option.map_eq_some_iff.1 hslot
    refine .functions (h.function? hf) (h.function? hg) ?_ (fun i slot slot' hi hi' => ?_)
      fun i slot slot' hi hi' x hx y hy => ?_
    · simpa [FunctionVariable.rename] using params
    · obtain ⟨set, hset, rfl⟩ := hslot hi
      obtain ⟨set', hset', rfl⟩ := hslot hi'
      rw [hempty, hempty]
      exact filled i set set' hset hset'
    · obtain ⟨set, hset, rfl⟩ := hslot hi
      obtain ⟨set', hset', rfl⟩ := hslot hi'
      obtain ⟨x, hx', rfl⟩ := VarSet.mem_rename.1 hx
      obtain ⟨y, hy', rfl⟩ := VarSet.mem_rename.1 hy
      exact ih i set set' hset hset' x hx' y hy'

theorem SameShape.params_length {f g : FunctionVariable} (h : arena.SameShape a b)
    (hf : arena.function? a = some f) (hg : arena.function? b = some g) :
    f.params.length = g.params.length := by
  simpa [arity?, hf, hg] using h.arity_eq hf

/-- What a variable owns it owns elsewhere. -/
theorem Embeds.owns (h : arena.Embeds ρ arena') (hwf : arena'.WellFormed n)
    (hx : arena.Owns v x) : arena'.Owns (ρ.var v) (ρ.atom x) := by
  obtain ⟨atoms, hatoms, hx⟩ := hx
  obtain ⟨y, hy, -⟩ := Option.bind_eq_some_iff.1 hatoms
  obtain ⟨atoms', hatoms', -⟩ :=
    hwf.exists_atoms (Array.getElem?_eq_some_iff.1 (h v y hy)).1
  obtain rfl := h.atoms_eq hatoms hatoms'
  exact ⟨_, hatoms', List.mem_map_of_mem hx⟩

/-- A list of functions of one shape, where each two neighbours coincide: then any two do. -/
theorem coincide_of_isChain {same : Atom → Atom → Prop} {l : List VarId} (hwf : arena.WellFormed n)
    (hsame : Equivalence same) (hshape : l.Pairwise arena.SameShape)
    (hl : l.IsChain (arena.Coincide same)) (ha : a ∈ l) (hb : b ∈ l) :
    arena.Coincide same a b := by
  let r (a b : VarId) : Prop := arena.SameShape a b ∧ arena.Coincide same a b
  have : Trans r r r := ⟨fun h h' => ⟨h.1.trans h'.1, h.1.coincide_trans hwf hsame h'.1 h.2 h'.2⟩⟩
  have : Std.Symm (arena.Coincide same) := ⟨fun _ _ => .symm⟩
  have hchain : l.IsChain r := by
    have hshape := hshape.isChain
    rw [List.isChain_iff_forall_rel_of_append_cons_cons] at hshape hl ⊢
    exact fun _ _ _ _ hsplit => ⟨hshape hsplit, hl hsplit⟩
  exact (hchain.pairwise.imp And.right).forall_of_forall (fun _ _ => .refl) ha hb

def SlotEquation (arena : Arena) (a b : VarId) (c : Constraint) : Prop :=
  ∃ f g, arena.function? a = some f ∧ arena.function? b = some g ∧
    f.params.length = g.params.length ∧ ∃ (i : Nat) (slot slot' : VarSet),
      f.slots[i]? = some slot ∧ g.slots[i]? = some slot' ∧
        ∃ x ∈ slot, ∃ y ∈ slot', Session.EquationOf arena x y c

/-- It says nothing new where the functions coincide. -/
theorem SlotEquation.entailed {c : Constraint} {system : ConstraintSystem}
    (hc : arena.SlotEquation a b c) (h : arena.Embeds ρ arena') (hwf : arena'.WellFormed n)
    (hab : arena'.Coincide system.verdict.same (ρ.var a) (ρ.var b)) :
    system.Entails (c.rename ρ) := by
  obtain ⟨f, g, hf, hg, hlen, i, slot, slot', hslot, hslot', x, hx, y, hy, eqs, heqs, e, he, rfl⟩ :=
    hc
  have hsame := system.equivalence_same
  have hxy : arena'.Coincide system.verdict.same (ρ.var x) (ρ.var y) := by
    have hlen' : (f.rename ρ).params.length = (g.rename ρ).params.length := by
      simpa [FunctionVariable.rename] using hlen
    have hmoved : (f.rename ρ).slots[i]? = some (slot.rename ρ) := by
      rw [FunctionVariable.slots_rename, List.getElem?_map, hslot, Option.map_some]
    have hmoved' : (g.rename ρ).slots[i]? = some (slot'.rename ρ) := by
      rw [FunctionVariable.slots_rename, List.getElem?_map, hslot', Option.map_some]
    exact hab.slots hwf (h.function? hf) (h.function? hg) hlen' hmoved hmoved' _
      (VarSet.mem_rename.2 ⟨x, hx, rfl⟩) _ (VarSet.mem_rename.2 ⟨y, hy, rfl⟩)
  rw [ConstraintSystem.entails_normalized_rename]
  exact h.yields hwf hsame.refl hsame.symm _ heqs hxy e he

end Arena

namespace Session

variable {options : Options} {units units' : List TranslationUnit} {s t t' : Session}
  {a b v : VarId} {c : Constraint} {name : String}

/-- Reconciling two functions of one arity equates what they have in each slot. -/
theorem reconcile_adds {f g : FunctionVariable} (hf : s.arena.function? a = some f)
    (hg : s.arena.function? b = some g) (hlen : f.params.length = g.params.length) :
    Adds (s.arena.SlotEquation a b) (reconcile a b) s := by
  apply Adds.bind_get
  dsimp only
  rw [hf, hg]
  dsimp only
  rw [if_pos hlen]
  apply ((equateSets_adds f.returns g.returns s).mono fun c hc =>
    ⟨f, g, hf, hg, hlen, 0, _, _, rfl, rfl, hc⟩).bind
  intro _ t hst
  refine Adds.bind (Adds.forM fun e he w htw => ?_) fun _ _ _ => .pure
  obtain ⟨i, hi⟩ := List.mem_iff_getElem?.1 he
  obtain ⟨hx, hy⟩ := List.getElem?_zip_eq_some.1 hi
  apply (equateSets_adds e.1 e.2 w).mono
  rw [(hst.trans htw).arena]
  exact fun c hc => ⟨f, g, hf, hg, hlen, i + 1, _, _, hx, hy, hc⟩

/-- If declarations are merged, all bodiless variants of a name have one shape. -/
def OneShape (s : Session) : Prop := s.options.mergeDeclarations →
  ∀ name, (bodiless s.arena (s.variants name)).Pairwise s.arena.SameShape

/-- It is enough to look at the names that are declared. -/
theorem oneShape_of_globals (h : ∀ set ∈ s.globals.values,
    (bodiless s.arena set).Pairwise s.arena.SameShape) : s.OneShape := by
  intro _ name
  unfold variants
  cases hset : s.globals.find? name with
  | none => exact .nil
  | some set => exact h set (List.mem_map_of_mem (OrderedMap.mem_of_find? hset))

theorem OneShape.of_records (h : t.OneShape) (hst : s.Records t) : s.OneShape := by
  intro hmerge name
  have hshape := h (hst.creates.options ▸ hmerge) name
  rwa [hst.arena, hst.variants] at hshape

/-- Bodiless variants of a name that have one shape coincide when they have been merged, whether they
were neighbours or not. -/
theorem coincide_of_link {summary : LinkSummary} (ht : t.WellFormed) (h : link.Ends t summary t')
    (hmerge : t.options.mergeDeclarations)
    (hshape : (bodiless t.arena (t.variants name)).Pairwise t.arena.SameShape)
    (ha : a ∈ bodiless t.arena (t.variants name)) (hb : b ∈ bodiless t.arena (t.variants name)) :
    t.arena.Coincide t'.solver.verdict.same a b := by
  obtain ⟨htt', hmerged⟩ := (link_merges name t).of_ends h
  refine Arena.coincide_of_isChain ht.arena t'.solver.equivalence_same hshape ?_ ha hb
  refine (hmerged hmerge).imp_of_mem_imp fun v w hv hw hvw => ?_
  obtain ⟨f, hf, -⟩ := Bodiless.function ⟨name, hv⟩
  obtain ⟨g, hg, -⟩ := Bodiless.function ⟨name, hw⟩
  have htt' : t.Records t' := htt'
  have hcoincide := hvw.reconciled.coincide (htt'.arena ▸ hf) (htt'.arena ▸ hg)
  rwa [htt'.arena] at hcoincide

namespace TwoOrders

variable {made made' : Making → Prop} {b b' s' : Session} {summary summary' : LinkSummary}
  (h : TwoOrders options units units' ρ σ made made' b b' s t)

include h

/-- No two variables share an anchor. -/
theorem sharedSets_eq : s.sharedSets = [] := by
  refine List.filter_eq_nil_iff.2 fun set hset => ?_
  obtain ⟨e, he, rfl⟩ := List.mem_map.1 hset
  obtain ⟨v, hv, -⟩ := h.entry (h.left.reachable.sortedTables.index.find?_eq_some.2 he)
  simp [hv, VarSet.size, VarSet.singleton]

/-- Linking merges declarations and forces names. -/
theorem ends_link (hlink : link.Ends s summary s') : ∃ merged m,
    mergeDeclarations.Ends s merged m ∧ (s.unresolvedNames.forM boundName).Ends m ⟨⟩ s' := by
  obtain ⟨⟨r, m, merged, -, hequate, hmerge, hforce, -⟩⟩ := exists_linkPasses hlink
  rw [equateShared, h.sharedSets_eq] at hequate
  obtain ⟨-, rfl⟩ := ends_pure.1 hequate
  exact ⟨merged, m, hmerge, hforce⟩

theorem externsOf : ExternsOf (IsGlobal units) s :=
  externsOf_of_index h.index h.left.demands.externs

/-- The same names are forced in both orders. -/
theorem mem_unresolvedNames : name ∈ s.unresolvedNames ↔ name ∈ t.unresolvedNames := by
  rw [Session.mem_unresolvedNames h.externsOf.sorted,
    Session.mem_unresolvedNames h.symm.externsOf.sorted, h.externsOf.lacksBody_iff,
    h.symm.externsOf.lacksBody_iff, h.forth.options, lacksBody_perm h.perm]

/-- What linking records: equations of bodiless variants of one name, and bounds on what the variants
of an unresolved name own. -/
theorem link_adds (hshape : s.OneShape) (hlink : link.Ends s summary s')
    (hc : c ∈ s'.solver.constraints) :
    c ∈ s.solver.constraints ∨
    (s.options.mergeDeclarations ∧ ∃ name, ∃ a ∈ bodiless s.arena (s.variants name),
      ∃ b ∈ bodiless s.arena (s.variants name), s.arena.SlotEquation a b c) ∨
    ∃ name ∈ s.unresolvedNames, ∃ v ∈ s.variants name, BoundOn s.arena .leastSafe v c := by
  obtain ⟨merged, m, hmerge, hnames⟩ := h.ends_link hlink
  have hs := h.forth.wellFormed
  have hmerged : Adds (fun c => s.options.mergeDeclarations ∧ ∃ name,
      ∃ a ∈ bodiless s.arena (s.variants name), ∃ b ∈ bodiless s.arena (s.variants name),
        s.arena.SlotEquation a b c) mergeDeclarations s := by
    refine mergeDeclarations_adds (.refl s) fun hmerge set hset a ha b hb w hsw => ?_
    obtain ⟨⟨name, set⟩, he, rfl⟩ := List.mem_map.1 hset
    rw [← h.left.reachable.sortedTables.variants he] at ha hb
    obtain ⟨f, hf, -⟩ := Bodiless.function ⟨name, ha⟩
    obtain ⟨g, hg, -⟩ := Bodiless.function ⟨name, hb⟩
    have hlen : f.params.length = g.params.length := by
      obtain rfl | hne := eq_or_ne a b
      · rw [Option.some.inj (hf.symm.trans hg)]
      · have : Std.Symm s.arena.SameShape := ⟨fun _ _ => .symm⟩
        exact ((hshape hmerge name).forall ha hb hne).params_length hf hg
    refine (reconcile_adds (hsw.arena ▸ hf) (hsw.arena ▸ hg) hlen).mono fun c hc => ?_
    exact ⟨hmerge, name, a, ha, b, hb, hsw.arena ▸ hc⟩
  obtain ⟨hsm, hm⟩ := hmerged.of_ends hmerge
  have hsm : s.Records m := hsm
  obtain ⟨-, hnamed⟩ := (boundNames_adds s.unresolvedNames (hsm.creates.wellFormed hs)).of_ends hnames
  rcases hnamed c hc with hc | ⟨name, hname, v, hv, hbound⟩
  · exact (hm c hc).imp_right .inl
  · rw [hsm.variants] at hv
    rw [hsm.arena] at hbound
    exact .inr (.inr ⟨name, hname, v, hv, hbound⟩)

theorem bodiless_map_perm (name : String) :
    ((bodiless s.arena (s.variants name)).map ρ.var).Perm (bodiless t.arena (t.variants name)) := by
  obtain ⟨l, hl, hperm⟩ := h.bodiless_perm name
  have hmap : (bodiless s.arena (s.variants name)).map ρ.var = l := by
    rw [← List.forall₂_eq_eq_eq]
    exact List.forall₂_map_left_iff.2 (hl.imp fun _ _ hvw => hvw.forth)
  exact hmap ▸ hperm

/-- Bodiless variants that have one shape in one order have one shape in the other. -/
theorem shapes_there (hshape : (bodiless s.arena (s.variants name)).Pairwise s.arena.SameShape) :
    (bodiless t.arena (t.variants name)).Pairwise t.arena.SameShape :=
  ((h.bodiless_map_perm name).pairwise_iff fun hab => hab.symm).1
    (List.pairwise_map.2 (hshape.imp h.forth.arena.sameShape))

/-- What linking records in one order follows from what it records in the other. -/
theorem within_of_link (hshape : s.OneShape) (hlink : link.Ends s summary s')
    (hlink' : link.Ends t summary' t') : Within ρ s t s' t' := by
  have ht := h.back.wellFormed
  have hst : s.Records s' := ((link_meets s).of_ends hlink).1
  have htt' : t.Records t' := ((link_meets t).of_ends hlink').1
  refine ⟨hst, htt', fun c hc => ?_⟩
  rcases h.link_adds hshape hlink hc with
    hold | ⟨hmerge, name, a, ha, b, hb, hc⟩ | ⟨name, hname, v, hv, x, hx, rfl⟩
  · exact ((h.forth.recorded c hold).grows htt'.solver).entails
  · have hthere : ∀ v ∈ bodiless s.arena (s.variants name),
        ρ.var v ∈ bodiless t.arena (t.variants name) := fun v hv =>
      (h.bodiless_map_perm name).mem_iff.1 (List.mem_map_of_mem hv)
    exact hc.entailed h.forth.arena ht.arena (coincide_of_link ht hlink' (h.forth.options ▸ hmerge)
      (h.shapes_there (hshape hmerge name)) (hthere a ha) (hthere b hb))
  · obtain ⟨merged, m, hmerge', hnames'⟩ := h.symm.ends_link hlink'
    have htm : t.Records m := ((mergeDeclarations_meets t).of_ends hmerge').1
    have hv' : ρ.var v ∈ m.variants name := by
      rw [htm.variants]
      exact (h.variant_there hv).2
    have hforced : t'.Forced (ρ.var v) :=
      ((boundNames_forces t.unresolvedNames (htm.creates.wellFormed ht)).of_ends hnames').2 name
        (h.mem_unresolvedNames.1 hname) _ hv'
    have howns : t'.arena.Owns (ρ.var v) (ρ.atom x) := by
      rw [htt'.arena]
      exact h.forth.arena.owns ht.arena hx
    exact fun value hvalue => hvalue _ (hforced _ ⟨_, howns, rfl⟩)

/-- After linking both sessions say the same. -/
theorem attuned_of_link (hshape : s.OneShape) (hlink : link.Ends s summary s')
    (hlink' : link.Ends t summary' t') : Attuned ρ σ s t s' t' := by
  have hshape' : t.OneShape := fun hmerge name =>
    h.shapes_there (hshape (h.back.options ▸ hmerge) name)
  exact ⟨h.within_of_link hshape hlink hlink', h.symm.within_of_link hshape' hlink' hlink⟩

end TwoOrders

end Session

end CheckedPointers
