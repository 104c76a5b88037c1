import CheckedPointers.Proofs.Session.Recording
import CheckedPointers.Proofs.Variable.Coincidence
import CheckedPointers.Session.Linking
import Mathlib.Data.List.Chain

/-!
Linking only records constraints. Neighbours among the bodiless variants of a name agree
afterwards, on their returns always and on their parameters if they have as many.
-/
namespace CheckedPointers

open Op

namespace Session

variable {α : Type} {s t : Session}

/-- What linking makes of two bodiless declarations. -/
def Reconciled (s : Session) (a b : VarId) : Prop :=
  ∀ f g, s.arena.function? a = some f → s.arena.function? b = some g →
    s.EquatedSets f.returns g.returns ∧
      (f.params.length = g.params.length → ∀ e ∈ f.params.zip g.params, s.EquatedSets e.1 e.2)

theorem EquatedSets.records {x y : VarSet} (h : s.EquatedSets x y) (hst : s.Records t) :
    t.EquatedSets x y := fun a ha b hb => (h a ha b hb).records hst

theorem Reconciled.records {a b : VarId} (h : s.Reconciled a b) (hst : s.Records t) :
    t.Reconciled a b := by
  intro f g hf hg
  rw [hst.arena] at hf hg
  obtain ⟨hreturns, hparams⟩ := h f g hf hg
  exact ⟨hreturns.records hst, fun hlen e he => (hparams hlen e he).records hst⟩

def SlotsBounded (s : Session) (c : Category) (f : FunctionVariable) : Prop :=
  ∀ slot ∈ f.slots, ∀ p ∈ slot, s.Bounded c p

theorem SlotsBounded.records {c : Category} {f : FunctionVariable} (h : s.SlotsBounded c f)
    (hst : s.Records t) : t.SlotsBounded c f :=
  fun slot hslot p hp => (h slot hslot p hp).records hst

/-- A function whose slots are bounded is wild all over once that is solved. -/
theorem SlotsBounded.all_wild {f : FunctionVariable} {v : VarId}
    (h : s.SlotsBounded .leastSafe f) (hs : s.WellFormed) (hf : s.arena.function? v = some f) :
    s.arena.All (fun a => s.solver.solve.category a = .wild) v := by
  have hall : s.arena.All (fun a => s.solver.Entails (.atLeast a .leastSafe)) v :=
    hs.arena.all_function hf h
  refine hall.imp (.refl _) fun a ha => ?_
  exact Category.le_antisymm (Category.le_wild _) (ha.satisfies hs.solver)

/-- All slots of a signature that was bounded are bounded. -/
theorem boundSignature_meets (f : FunctionVariable) (c : Category) (s : Session) :
    Meets .records (boundSignature f c) s fun _ t => t.SlotsBounded c f :=
  Meets.forM (P := fun slot t => ∀ p ∈ slot, t.Bounded c p)
    (fun _ _ _ (htu : Session.Records _ _) h p hp => (h p hp).records htu) fun slot _ t _ =>
      Meets.discard (boundSet_meets slot c t)

/-- What linking makes of two bodiless declarations with prototypes that list differently many
parameters. -/
def Conflicted (s : Session) (a b : VarId) : Prop :=
  ∀ f g, s.arena.function? a = some f → s.arena.function? b = some g →
    f.params.length ≠ g.params.length → f.hasPrototype → g.hasPrototype →
      s.SlotsBounded .leastSafe f ∧ s.SlotsBounded .leastSafe g

theorem Conflicted.records {a b : VarId} (h : s.Conflicted a b) (hst : s.Records t) :
    t.Conflicted a b := by
  intro f g hf hg hlen hfp hgp
  rw [hst.arena] at hf hg
  obtain ⟨hleft, hright⟩ := h f g hf hg hlen hfp hgp
  exact ⟨hleft.records hst, hright.records hst⟩

/-- What linking makes of two neighbours among the bodiless declarations of a name. -/
structure Merged (s : Session) (a b : VarId) : Prop where
  reconciled : s.Reconciled a b
  conflicted : s.Conflicted a b

theorem Merged.records {a b : VarId} (h : s.Merged a b) (hst : s.Records t) : t.Merged a b :=
  ⟨h.reconciled.records hst, h.conflicted.records hst⟩

/-- Neighbours are equated slot by slot, or bounded if they are prototypes that disagree. -/
theorem reconcile_meets (a b : VarId) (s : Session) :
    Meets .records (reconcile a b) s fun _ t => t.Merged a b := by
  refine Meets.bind_get ?_
  dsimp only
  split
  · next f g hf hg =>
    have done : ∀ t, s.Records t → t.EquatedSets f.returns g.returns →
        (f.params.length = g.params.length → ∀ e ∈ f.params.zip g.params,
          t.EquatedSets e.1 e.2) →
        (f.params.length ≠ g.params.length → f.hasPrototype → g.hasPrototype →
          t.SlotsBounded .leastSafe f ∧ t.SlotsBounded .leastSafe g) → t.Merged a b := by
      intro t hst hreturns hparams hconflict
      constructor <;> intro f' g' hf' hg' <;> rw [hst.arena] at hf' hg' <;>
        obtain rfl := Option.some.inj (hf.symm.trans hf') <;>
        obtain rfl := Option.some.inj (hg.symm.trans hg')
      · exact ⟨hreturns, hparams⟩
      · exact hconflict
    refine Meets.bind (equateSets_meets f.returns g.returns s).frame
      fun _ t _ ⟨hst, hreturns⟩ => ?_
    split
    · next hlen =>
      refine Meets.bind (Meets.forM (P := fun (e : VarSet × VarSet) w => w.EquatedSets e.1 e.2)
        (fun e v w (hvw : v.Records w) h => h.records hvw) fun e _ w _ =>
          equateSets_meets e.1 e.2 w).frame fun _ w _ ⟨htw, hall⟩ => Meets.pure ?_
      exact done w (hst.trans htw) (hreturns.records htw) (fun _ => hall) fun h => absurd hlen h
    · next hlen =>
      split
      · refine Meets.bind (boundSignature_meets f .leastSafe t).frame fun _ w _ ⟨htw, hf⟩ => ?_
        refine Meets.bind (boundSignature_meets g .leastSafe w).frame fun _ z _ ⟨hwz, hg⟩ =>
          Meets.pure ?_
        have htz := htw.trans hwz
        exact done z (hst.trans htz) (hreturns.records htz) (fun h => absurd h hlen)
          fun _ _ _ => ⟨hf.records hwz, hg⟩
      · next hno =>
        refine Meets.pure (done t hst hreturns (fun h => absurd h hlen) fun _ hfp hgp => ?_)
        exact absurd (by simp [hfp, hgp]) hno
  · next hnone =>
    exact Meets.pure ⟨fun f g hf hg => absurd hg (hnone f g hf),
      fun f g hf hg => absurd hg (hnone f g hf)⟩

/-- What is done for each two neighbours holds of all of them in the end. -/
theorem chain_meets {f : VarId → VarId → Op α} {P : VarId → VarId → Session → Prop}
    (hkeep : ∀ a b t w, t.Records w → P a b t → P a b w)
    (hf : ∀ a b t, Meets .records (f a b) t fun _ w => P a b w) (l : List VarId) (s : Session) :
    Meets .records (chain f l) s fun _ t => l.IsChain (P · · t) := by
  induction l generalizing s with
  | nil => exact Meets.pure List.isChain_nil
  | cons a l ih =>
    cases l with
    | nil => exact Meets.pure (List.isChain_singleton a)
    | cons b rest =>
      rw [chain]
      refine Meets.bind (hf a b s) fun _ t _ hab => ?_
      refine Meets.bind (ih t).frame fun _ w _ ⟨htw, hrest⟩ => Meets.pure ?_
      exact List.isChain_cons_cons.2 ⟨hkeep a b t w htw hab, hrest⟩

/-- The bodiless functions of several sets are reconciled set by set. -/
theorem reconcileAll_meets (arena : Arena) (sets : List VarSet) (s : Session) :
    Meets .records (sets.mapM fun set => chain reconcile (bodiless arena set)) s fun _ t =>
      ∀ set ∈ sets, (bodiless arena set).IsChain (t.Merged · ·) := by
  induction sets generalizing s with
  | nil => exact Meets.pure fun _ h => absurd h List.not_mem_nil
  | cons x rest ih =>
    rw [List.mapM_cons]
    refine Meets.bind (chain_meets (P := fun a b t => t.Merged a b)
      (fun _ _ _ _ htw h => h.records htw) reconcile_meets _ s) fun _ t _ hx => ?_
    refine Meets.bind (ih t).frame fun _ w _ hrest => Meets.pure ?_
    intro set hset
    rcases List.mem_cons.1 hset with rfl | hset
    · exact hx.imp fun _ _ h => h.records hrest.1
    · exact hrest.2 set hset

theorem mergeDeclarations_meets (s : Session) :
    Meets .records mergeDeclarations s fun _ t => s.options.mergeDeclarations →
      ∀ variants ∈ s.globals.values, (bodiless s.arena variants).IsChain (t.Merged · ·) := by
  refine Meets.bind_get ?_
  split
  · exact Meets.bind (reconcileAll_meets s.arena s.globals.values s) fun _ t _ h =>
      Meets.pure fun _ => h
  · next hno => exact Meets.pure fun h => absurd h hno

/-- All variants of the name are bounded, slot by slot. -/
theorem boundName_meets (name : String) (s : Session) :
    Meets .records (boundName name) s fun _ t => ∀ v ∈ s.variants name, ∀ f,
      s.arena.function? v = some f → t.SlotsBounded .leastSafe f := by
  refine Meets.bind_get (Meets.forM (P := fun v t => ∀ f, s.arena.function? v = some f →
    t.SlotsBounded .leastSafe f) (fun _ _ _ htu h f hf => (h f hf).records htu)
    fun v _ t hst => Meets.bind_get ?_)
  have hst : s.Records t := hst
  rw [← hst.arena]
  split
  · next f hf =>
    refine (boundSignature_meets f .leastSafe t).mono fun _ w _ h f' hf' => ?_
    rwa [Option.some.inj (hf'.symm.trans hf)]
  · next hnone => exact Meets.pure fun f hf => absurd hf (by simp [hnone])

/-- All names are forced, since what was bounded stays bounded. -/
theorem boundNames_meets (names : List String) (s : Session) :
    Meets .records (names.forM boundName) s fun _ t => ∀ name ∈ names, ∀ v ∈ s.variants name,
      ∀ f, s.arena.function? v = some f → t.SlotsBounded .leastSafe f := by
  refine Meets.forM (P := fun name t => ∀ v ∈ s.variants name, ∀ f,
    s.arena.function? v = some f → t.SlotsBounded .leastSafe f)
    (fun _ _ _ htu h v hv f hf => (h v hv f hf).records htu) fun name _ t hst => ?_
  have hst : s.Records t := hst
  rw [← hst.variants, ← hst.arena]
  exact boundName_meets name t

/-- What is equated set by set is equated neighbour by neighbour. -/
theorem equateShared_meets (sets : List VarSet) (s : Session) :
    Meets .records (sets.forM fun set => discard (chain equate set.members)) s fun _ t =>
      ∀ set ∈ sets, set.members.IsChain (t.EquationsRecorded · ·) :=
  Meets.forM (P := fun (set : VarSet) t => set.members.IsChain (t.EquationsRecorded · ·))
    (fun _ _ _ htw h => h.imp fun _ _ h => h.records htw) fun (set : VarSet) _ t _ =>
      Meets.discard (chain_meets (fun _ _ _ _ htw h => h.records htw) equate_stated set.members t)

theorem equateShared_records (sets : List VarSet) (s : Session) :
    Meets .records (sets.forM fun set => discard (chain equate set.members)) s fun _ _ => True :=
  (equateShared_meets sets s).any

/-- Among the bodiless variants of every name, neighbours are merged. -/
theorem link_meets (s : Session) :
    Meets .records link s fun _ t => s.options.mergeDeclarations →
      ∀ variants ∈ s.globals.values, (bodiless s.arena variants).IsChain (t.Merged · ·) := by
  refine Meets.bind_get ?_
  dsimp only
  split
  · exact Meets.fault
  · refine Meets.bind (equateShared_records _ s).frame fun _ t _ ⟨hst, _⟩ => ?_
    refine Meets.bind (mergeDeclarations_meets t) fun merged w _ hmerged => ?_
    refine Meets.bind (boundNames_meets _ w).any.frame fun _ z _ ⟨hwz, _⟩ => ?_
    refine Meets.bind_get (Meets.pure ?_)
    intro hmerge variants hv
    rw [hst.only] at hmerged
    exact (hmerged hmerge variants hv).imp fun _ _ h => h.records hwz

/-- Linking merges neighbours among the bodiless variants of each name. -/
theorem link_merges (name : String) (s : Session) :
    Meets .records link s fun _ t => s.options.mergeDeclarations →
      (bodiless s.arena (s.variants name)).IsChain (t.Merged · ·) := by
  refine (link_meets s).mono fun _ t _ h hmerge => ?_
  unfold variants
  cases hfind : s.globals.find? name with
  | none => exact List.isChain_nil
  | some set => exact h hmerge set (List.mem_map_of_mem (OrderedMap.mem_of_find? hfind))

/-! ## The passes of a run -/

def sharedSets (s : Session) : List VarSet := s.index.values.filter fun set => 1 < set.size

def equateShared (s : Session) : Op PUnit :=
  s.sharedSets.forM fun set => discard (chain equate set.members)

/-- What a run of linking consists of: variables that share an anchor are equated, declarations are
merged, and the unresolved names are forced. The sets and the names are those it has found. -/
structure LinkPasses (s : Session) (summary : LinkSummary) (t : Session) where
  equated : Session
  merged : Session
  reconciled : List Bool
  opened : s.opened = none
  equate : s.equateShared.Ends s ⟨⟩ equated
  merge : mergeDeclarations.Ends equated reconciled merged
  force : (s.unresolvedNames.forM boundName).Ends merged ⟨⟩ t
  summary_eq : summary = ⟨s.sharedSets.length, reconciled.count true, reconciled.count false,
    s.unresolvedNames.length, t.solver.constraints.size - s.solver.constraints.size⟩

/-- A run of linking that ends has gone through its passes. -/
theorem exists_linkPasses {summary : LinkSummary} (h : link.Ends s summary t) :
    Nonempty (LinkPasses s summary t) := by
  obtain ⟨_, _, hget, h⟩ := ends_bind.1 h
  obtain ⟨rfl, rfl⟩ := ends_get.1 hget
  dsimp only at h
  split at h
  · exact absurd h not_ends_fault
  · next hopened =>
    obtain ⟨_, r, hshared, h⟩ := ends_bind.1 h
    obtain ⟨merged, m, hmerge, h⟩ := ends_bind.1 h
    obtain ⟨_, w, hnames, h⟩ := ends_bind.1 h
    obtain ⟨_, _, hget, h⟩ := ends_bind.1 h
    obtain ⟨rfl, rfl⟩ := ends_get.1 hget
    obtain ⟨rfl, rfl⟩ := ends_pure.1 h
    exact ⟨⟨r, m, merged, by simpa using hopened, hshared, hmerge, hnames, rfl⟩⟩

namespace LinkPasses

variable {summary : LinkSummary} (p : LinkPasses s summary t)

include p

/-- A run of linking is all of its passes. -/
theorem ends : link.Ends s summary t := by
  refine ends_bind.2 ⟨s, s, ends_get.2 ⟨rfl, rfl⟩, ?_⟩
  simp only [p.opened]
  refine ends_bind.2 ⟨⟨⟩, p.equated, p.equate, ends_bind.2 ⟨_, p.merged, p.merge, ?_⟩⟩
  refine ends_bind.2 ⟨⟨⟩, t, p.force, ends_bind.2 ⟨t, t, ends_get.2 ⟨rfl, rfl⟩, ?_⟩⟩
  exact ends_pure.2 ⟨p.summary_eq.symm, rfl⟩

theorem records_equated : s.Records p.equated := ((equateShared_records _ s).of_ends p.equate).1

theorem records_merged : p.equated.Records p.merged :=
  ((mergeDeclarations_meets p.equated).of_ends p.merge).1

theorem records_forced : p.merged.Records t := ((boundNames_meets _ p.merged).of_ends p.force).1

theorem sharedAnchors : summary.sharedAnchors = s.sharedSets.length := by rw [p.summary_eq]

theorem unresolvedExterns : summary.unresolvedExterns = s.unresolvedNames.length := by
  rw [p.summary_eq]

end LinkPasses

end Session

end CheckedPointers
