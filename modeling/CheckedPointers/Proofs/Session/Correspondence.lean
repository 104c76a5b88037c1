import CheckedPointers.Proofs.Session.Matching
import CheckedPointers.Session.Linking
import CheckedPointers.Session.Repair

/-!
Linking and repair in two sessions at a time. They ask little of a session: what its functions take
and return, how categories stand, and what becomes of bounds and equations. Sessions that agree on
that for variables that correspond go through linking and repair alike.
-/
namespace CheckedPointers

variable {J : VarId → VarId → Prop}

/-- The zips of lists that correspond do so pair by pair. -/
theorem rel_zip {α β : Type} {P : α → β → Prop} {as as' : List α} {bs bs' : List β}
    (h : List.Forall₂ P as bs) (h' : List.Forall₂ P as' bs') :
    List.Forall₂ (fun a b => P a.1 b.1 ∧ P a.2 b.2) (as.zip as') (bs.zip bs') := by
  induction h generalizing as' bs' with
  | nil => exact .nil
  | cons hab _ ih =>
    cases h' with
    | nil => exact .nil
    | cons hab' h' => exact .cons ⟨hab, hab'⟩ (ih h')

def VarSet.Corresponds (J : VarId → VarId → Prop) (x y : VarSet) : Prop :=
  List.Forall₂ J x.members y.members

structure FunctionVariable.Corresponds (J : VarId → VarId → Prop) (f g : FunctionVariable) :
    Prop where
  returns : f.returns.Corresponds J g.returns
  params : List.Forall₂ (VarSet.Corresponds J) f.params g.params
  hasBody : g.hasBody = f.hasBody
  hasPrototype : g.hasPrototype = f.hasPrototype

theorem FunctionVariable.Corresponds.slots {f g : FunctionVariable} (h : f.Corresponds J g) :
    List.Forall₂ (VarSet.Corresponds J) f.slots g.slots := .cons h.returns h.params

namespace Session

open Op

variable {R : Session → Session → Prop} {s t : Session} {v w : VarId} {x y x' y' : VarSet}

/-- Variables that correspond are functions that do, or none of them is a function. -/
def FunctionsCorrespond (R : Session → Session → Prop) (J : VarId → VarId → Prop) : Prop :=
  ∀ s t v w, R s t → J v w →
    Option.Rel (FunctionVariable.Corresponds J) (s.arena.function? v) (t.arena.function? w)

theorem FunctionsCorrespond.any_bodiless (h : FunctionsCorrespond R J) (hst : R s t)
    (hv : J v w) : ((t.arena.function? w).any fun f => !f.hasBody) =
      (s.arena.function? v).any fun f => !f.hasBody := by
  have hfg := h s t v w hst hv
  generalize s.arena.function? v = f, t.arena.function? w = g at hfg
  cases hfg with
  | none => rfl
  | some hfg => simp [hfg.hasBody]

/-- The bodiless ones among variables that correspond. -/
theorem FunctionsCorrespond.filter_bodiless (h : FunctionsCorrespond R J) (hst : R s t)
    {vs ws : List VarId} (hvs : List.Forall₂ J vs ws) :
    List.Forall₂ J (vs.filter fun v => (s.arena.function? v).any fun f => !f.hasBody)
      (ws.filter fun v => (t.arena.function? v).any fun f => !f.hasBody) :=
  List.rel_filter (R := J) (fun _ _ hv => Bool.eq_iff_iff.1 (h.any_bodiless hst hv).symm) hvs

/-! ## Linking -/

structure LinksAlike (R : Session → Session → Prop) (J : VarId → VarId → Prop) : Prop where
  functions : FunctionsCorrespond R J
  boundBelow : ∀ {v w} (c : Category), J v w → Matches R Eq (boundBelow v c) (boundBelow w c)
  equate : ∀ {v w v' w'}, J v w → J v' w' → Matches R Eq (equate v v') (equate w w')

/-- Neighbours in lists that correspond. -/
theorem chain_matches {α : Type} (f : VarId → VarId → Op α)
    (hf : ∀ {v w v' w'}, J v w → J v' w' → Matches R Eq (f v v') (f w w')) {vs ws : List VarId}
    (h : List.Forall₂ J vs ws) : Matches R Eq (chain f vs) (chain f ws) := by
  induction h with
  | nil => exact .pure rfl
  | cons hv hvs ih =>
    cases hvs with
    | nil => exact .pure rfl
    | cons hv' _ => exact (hf hv hv').bind_eq fun first => ih.bind_eq fun _ => .pure rfl

namespace LinksAlike

variable (h : LinksAlike R J)

include h

theorem boundSet (c : Category) (hx : x.Corresponds J y) :
    Matches R Eq (boundSet x c) (boundSet y c) := by
  unfold VarSet.Corresponds at hx
  rw [Session.boundSet, Session.boundSet]
  generalize x.members = vs, y.members = ws at hx
  induction hx with
  | nil => exact .pure rfl
  | cons hv _ ih => exact (h.boundBelow c hv).bind_eq fun _ => ih.bind_eq fun _ => .pure rfl

theorem equateSets (hx : x.Corresponds J y) (hx' : x'.Corresponds J y') :
    Matches R Eq (equateSets x x') (equateSets y y') :=
  Matches.forM hx fun _ _ hv => Matches.forM hx' fun _ _ hv' => h.equate hv hv'

theorem boundSignature {f g : FunctionVariable} (c : Category) (hfg : f.Corresponds J g) :
    Matches R Eq (boundSignature f c) (boundSignature g c) :=
  Matches.forM hfg.slots fun _ _ hslot => (h.boundSet c hslot).discard

/-- Declarations that correspond are reconciled alike, for equations, bounds and shape are the same.
-/
theorem reconcile {v' w' : VarId} (hv : J v w) (hv' : J v' w') :
    Matches R Eq (reconcile v v') (reconcile w w') := by
  apply Matches.bind_get
  intro s t hst
  have hf := h.functions s t v w hst hv
  have hg := h.functions s t v' w' hst hv'
  dsimp only
  generalize s.arena.function? v = f, t.arena.function? w = f' at hf
  generalize s.arena.function? v' = g, t.arena.function? w' = g' at hg
  cases hf with
  | none => exact .pure rfl
  | some hf =>
    cases hg with
    | none => exact .pure rfl
    | some hg =>
      dsimp only
      rw [hf.params.length_eq, hg.params.length_eq, hf.hasPrototype, hg.hasPrototype]
      refine (h.equateSets hf.returns hg.returns).bind_eq fun _ => ?_
      split
      · refine (Matches.forM (rel_zip hf.params hg.params) fun _ _ hslots => ?_).bind_eq
          fun _ => .pure rfl
        exact h.equateSets hslots.1 hslots.2
      · split
        · refine (h.boundSignature _ hf).bind_eq fun _ => ?_
          exact (h.boundSignature _ hg).bind_eq fun _ => .pure rfl
        · exact .pure rfl

end LinksAlike

/-- The tables that linking reads are the same, and whatever stands in them corresponds to itself.
No unit is open, and as many constraints were added to `m` and to `n` of them. -/
structure SameTables (R : Session → Session → Prop) (J : VarId → VarId → Prop) (m n : Nat) :
    Prop where
  closed : ∀ {s t}, R s t → s.opened = none ∧ t.opened = none
  options : ∀ {s t}, R s t → t.options = s.options
  externs : ∀ {s t}, R s t → t.externs = s.externs
  index : ∀ {s t}, R s t → t.index = s.index ∧
    ∀ set ∈ s.index.values, ∀ v ∈ set.members, J v v
  globals : ∀ {s t}, R s t → t.globals = s.globals ∧
    ∀ set ∈ s.globals.values, ∀ v ∈ set.members, J v v
  added : ∀ {s t}, R s t →
    s.solver.constraints.size + n = t.solver.constraints.size + m

namespace LinksAlike

variable (h : LinksAlike R J) {m n : Nat} (htables : SameTables R J m n)

include h htables

/-- Declarations are merged alike, name by name. -/
theorem mergeDeclarations : Matches R Eq mergeDeclarations mergeDeclarations := by
  apply Matches.bind_get
  intro s t hst
  obtain ⟨hglobals, hsets⟩ := htables.globals hst
  rw [htables.options hst, hglobals]
  split
  · refine Matches.bind_eq ?_ fun merged => .pure rfl
    generalize s.globals.values = sets at hsets
    induction sets with
    | nil => exact .pure rfl
    | cons variants rest ih =>
      obtain ⟨hfirst, hrest⟩ := List.forall_mem_cons.1 hsets
      rw [List.mapM_cons, List.mapM_cons]
      have hbodiless := h.functions.filter_bodiless hst (List.forall₂_same.2 hfirst)
      exact (chain_matches Session.reconcile h.reconcile hbodiless).bind_eq fun first =>
        (ih hrest).bind_eq fun _ => .pure rfl
  · exact .pure rfl

theorem boundName (name : String) : Matches R Eq (boundName name) (boundName name) := by
  apply Matches.bind_get
  intro s t hst
  obtain ⟨hglobals, hsets⟩ := htables.globals hst
  rw [hglobals]
  refine Matches.forM_eq fun v hv => ?_
  have hvv : J v v := by
    cases hset : s.globals.find? name with
    | none => simp [hset, VarSet.empty] at hv
    | some set =>
      rw [hset] at hv
      exact hsets set (List.mem_map.2 ⟨_, OrderedMap.mem_of_find? hset, rfl⟩) v hv
  apply Matches.bind_get
  intro s t hst
  have hf := h.functions s t v v hst hvv
  generalize s.arena.function? v = f, t.arena.function? v = f' at hf
  cases hf with
  | none => exact .pure rfl
  | some hf => exact h.boundSignature _ hf

/-- The three passes of linking go the same way, since the tables that they read are the same. -/
theorem link : Matches R Eq link link := by
  apply Matches.bind_get
  intro s t hst
  obtain ⟨hs, ht⟩ := htables.closed hst
  obtain ⟨hindex, hsets⟩ := htables.index hst
  have hadded := htables.added hst
  have hnames : t.unresolvedNames = s.unresolvedNames := by
    rw [unresolvedNames, unresolvedNames, htables.externs hst, htables.options hst]
  dsimp only
  rw [hs, ht, hindex, hnames]
  refine (Matches.forM_eq fun set hset => ?_).bind_eq fun _ => ?_
  · have hmembers := hsets set (List.mem_filter.1 hset).1
    exact Matches.discard (chain_matches Session.equate h.equate (List.forall₂_same.2 hmembers))
  refine (h.mergeDeclarations htables).bind_eq fun merged => ?_
  refine (Matches.forM_eq fun name _ => h.boundName htables name).bind_eq fun _ => ?_
  apply Matches.bind_get
  intro s' t' hst'
  have hadded' := htables.added hst'
  have hnew : t'.solver.constraints.size - t.solver.constraints.size =
      s'.solver.constraints.size - s.solver.constraints.size := by omega
  rw [hnew]
  exact .pure rfl

end LinksAlike

/-! ## Repair -/

/-- Variables that correspond stand alike under two solutions, and are raised alike. -/
structure RaisesAlike (R : Session → Session → Prop) (J : VarId → VarId → Prop)
    (sol sol' : Solution) : Prop where
  functions : FunctionsCorrespond R J
  same : ∀ {v w v' w'}, J v w → J v' w' → (v = v' ↔ w = w')
  leastSafeLevel? : ∀ {s t v w}, R s t → J v w →
    t.arena.leastSafeLevel? sol' w = s.arena.leastSafeLevel? sol v
  hasWildLevel : ∀ {s t v w}, R s t → J v w →
    t.arena.hasWildLevel sol' w = s.arena.hasWildLevel sol v
  raise : ∀ {v w} (c : Category), J v w → Matches R Eq (raise sol v c) (raise sol' w c)

namespace RaisesAlike

variable {sol sol' : Solution} (h : RaisesAlike R J sol sol')

include h

/-- The least safe members of sets that correspond correspond. -/
theorem leastSafe? (hst : R s t) (hx : x.Corresponds J y) :
    Option.Rel J (s.arena.leastSafe? sol x) (t.arena.leastSafe? sol' y) := by
  unfold VarSet.Corresponds at hx
  rw [Arena.leastSafe?, Arena.leastSafe?]
  generalize x.members = vs, y.members = ws at hx
  cases hx with
  | nil => exact .none
  | cons hv hvs =>
    refine .some (List.rel_foldl (P := J) (fun best best' hbest v w hv => ?_) hv hvs)
    rw [Arena.worse, Arena.worse, h.leastSafeLevel? hst hbest, h.leastSafeLevel? hst hv]
    split
    · exact hv
    · exact hbest

theorem repairReturn {v' w' : VarId} (hv : J v w) (hv' : J v' w') :
    Matches R Eq (repairReturn sol v v') (repairReturn sol' w w') := by
  apply Matches.bind_get
  intro s t hst
  dsimp only
  rw [h.hasWildLevel hst hv, h.hasWildLevel hst hv', h.leastSafeLevel? hst hv,
    h.leastSafeLevel? hst hv']
  split
  · exact h.raise _ hv'
  split
  · exact .pure rfl
  split
  · split
    · exact h.raise _ hv
    · exact .pure rfl
  · exact .pure rfl

theorem repairParam {v' w' : VarId} (hv : J v w) (hv' : J v' w') :
    Matches R Eq (repairParam sol v v') (repairParam sol' w w') := by
  apply Matches.bind_get
  intro s t hst
  dsimp only
  rw [h.hasWildLevel hst hv, h.hasWildLevel hst hv', h.leastSafeLevel? hst hv,
    h.leastSafeLevel? hst hv']
  split
  · exact .pure rfl
  split
  · split
    · exact h.raise _ hv'
    · exact .pure rfl
  · exact .pure rfl

/-- The least safe members correspond, so the same two are reconciled on both sides. -/
theorem repairSlot {repair repair' : VarId → VarId → Op Bool}
    (hrepair : ∀ {v w v' w'}, J v w → J v' w' → Matches R Eq (repair v v') (repair' w w'))
    (hx : x.Corresponds J y) (hx' : x'.Corresponds J y') :
    Matches R Eq (repairSlot repair sol x x') (repairSlot repair' sol' y y') := by
  apply Matches.bind_get
  intro s t hst
  have hleast := h.leastSafe? hst hx
  have hleast' := h.leastSafe? hst hx'
  dsimp only
  generalize s.arena.leastSafe? sol x = v, t.arena.leastSafe? sol' y = w at hleast
  generalize s.arena.leastSafe? sol x' = v', t.arena.leastSafe? sol' y' = w' at hleast'
  cases hleast with
  | none => exact .pure rfl
  | some hv =>
    cases hleast' with
    | none => exact .pure rfl
    | some hv' => exact hrepair hv hv'

theorem repairParams {slots slots' : List (VarSet × VarSet)}
    (hslots : List.Forall₂ (fun e e' => VarSet.Corresponds J e.1 e'.1 ∧
      VarSet.Corresponds J e.2 e'.2) slots slots') :
    Matches R Eq (repairParams sol slots) (repairParams sol' slots') := by
  induction hslots with
  | nil => exact .pure rfl
  | cons hslot _ ih =>
    exact (h.repairSlot h.repairParam hslot.1 hslot.2).bind_eq fun first =>
      ih.bind_eq fun _ => .pure rfl

/-- Declarations that correspond have as many parameters, so the same branch is taken. -/
theorem repairDeclaration {v' w' : VarId} (hv : J v w) (hv' : J v' w') :
    Matches R Eq (repairDeclaration sol v v') (repairDeclaration sol' w w') := by
  apply Matches.bind_get
  intro s t hst
  have hf := h.functions s t v w hst hv
  have hg := h.functions s t v' w' hst hv'
  dsimp only
  generalize s.arena.function? v = f, t.arena.function? w = f' at hf
  generalize s.arena.function? v' = g, t.arena.function? w' = g' at hg
  cases hf with
  | none => exact .pure rfl
  | some hf =>
    cases hg with
    | none => exact .pure rfl
    | some hg =>
      dsimp only
      rw [hf.params.length_eq, hg.params.length_eq]
      refine (h.repairSlot h.repairReturn hf.returns hg.returns).bind_eq fun first => ?_
      split
      · exact (h.repairParams (rel_zip hf.params hg.params)).bind_eq fun _ => .pure rfl
      · exact .pure rfl

theorem repairAll {definition definition' : VarId} (hd : J definition definition')
    {vs ws : List VarId} (hvs : List.Forall₂ J vs ws) :
    Matches R Eq (repairAll sol definition vs) (repairAll sol' definition' ws) := by
  induction hvs with
  | nil => exact .pure rfl
  | @cons v w vs ws hv _ ih =>
    rw [Session.repairAll, Session.repairAll]
    by_cases hself : v = definition
    · rw [if_pos hself, if_pos ((h.same hv hd).1 hself)]
      exact ih.bind_eq fun _ => .pure rfl
    · rw [if_neg hself, if_neg fun hw => hself ((h.same hv hd).2 hw)]
      exact (h.repairDeclaration hd hv).bind_eq fun first => ih.bind_eq fun _ => .pure rfl

end RaisesAlike

structure RepairsAlike (R : Session → Session → Prop) (J : VarId → VarId → Prop)
    (sol sol' : Solution) : Prop extends RaisesAlike R J sol sol' where
  definitions : ∀ {s t}, R s t →
    List.Forall₂ (fun e e' => e.1 = e'.1 ∧ VarSet.Corresponds J e.2 e'.2) s.pairing.definitions
      t.pairing.definitions
  declarations : ∀ {s t v w} (key : FunctionKey), R s t → J v w →
    List.Forall₂ J (s.declarationsPaired key v) (t.declarationsPaired key w)

namespace RepairsAlike

variable {sol sol' : Solution} (h : RepairsAlike R J sol sol')

include h

/-- The keys come in one order on both sides, and under each the same definition is the least safe.
-/
theorem repairKeys {keys keys' : List (FunctionKey × VarSet)}
    (hkeys : List.Forall₂ (fun e e' => e.1 = e'.1 ∧ VarSet.Corresponds J e.2 e'.2) keys keys') :
    Matches R Eq (repairKeys sol keys) (repairKeys sol' keys') := by
  induction hkeys with
  | nil => exact .pure rfl
  | @cons e e' keys keys' he _ ih =>
    obtain ⟨key, definitions⟩ := e
    obtain ⟨key', definitions'⟩ := e'
    obtain ⟨rfl, hdefinitions⟩ := he
    apply Matches.bind_get
    intro s t hst
    have hleast := h.leastSafe? hst hdefinitions
    dsimp only
    generalize s.arena.leastSafe? sol definitions = d, t.arena.leastSafe? sol' definitions' = d'
      at hleast
    cases hleast with
    | none => exact ih.bind_eq fun _ => .pure rfl
    | some hd =>
      exact (h.repairAll hd (h.declarations key hst hd)).bind_eq fun first =>
        ih.bind_eq fun _ => .pure rfl

theorem repair : Matches R Eq (repair sol) (repair sol') :=
  Matches.bind_get fun _ _ hst => h.repairKeys (h.definitions hst)

end RepairsAlike

end Session

end CheckedPointers
