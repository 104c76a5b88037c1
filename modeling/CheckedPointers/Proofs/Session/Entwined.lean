import CheckedPointers.Proofs.Analysis.Selection
import CheckedPointers.Proofs.Session.Correspondence
import CheckedPointers.Proofs.Session.Embedding

/-!
Two sessions, each of which stands in the other. A variable whose name in the other session leads
back to it looks the same there, and so does everything inside of it. The variables that both
sessions had from the start are such variables, and so are the signatures made on demand.
-/
namespace CheckedPointers

open Op

variable {ρ σ : Renaming} {v w : VarId}

/-- A variable that maps keep as it is. -/
theorem eq_of_map_map {α β : Type} {g : α → β} {g' : β → α} {l : List α}
    (h : (l.map g).map g' = l) : ∀ a ∈ l, g' (g a) = a := by
  rw [List.map_map] at h
  exact List.map_inj_left.1 (h.trans l.map_id.symm)

/-- What is gathered from lists that correspond is the same. -/
theorem mapM_eq_of_forall₂ {α β γ : Type} {P : α → β → Prop} {g : α → Option γ} {g' : β → Option γ}
    {as : List α} {bs : List β} (h : List.Forall₂ P as bs) (hg : ∀ a b, P a b → g' b = g a) :
    bs.mapM g' = as.mapM g := by
  induction h with
  | nil => rfl
  | cons hab _ ih => rw [List.mapM_cons, List.mapM_cons, hg _ _ hab, ih]

namespace OrderedMap

/-- A map that lists its keys in order is known by its entries. -/
theorem Sorted.entries_eq {κ α : Type} [Ord κ] [Std.TransOrd κ] {m : OrderedMap κ α}
    {l : List (κ × α)} (h : m.Sorted) (hl : l.Pairwise fun a b => compare a.1 b.1 = .lt)
    (hsame : ∀ e, e ∈ m.entries ↔ e ∈ l) : m.entries = l := by
  have : Std.Irrefl fun a b : κ × α => compare a.1 b.1 = .lt :=
    ⟨fun a ha => by simp at ha⟩
  have : Std.Antisymm fun a b : κ × α => compare a.1 b.1 = .lt :=
    ⟨fun a b hab hba => by
      have hgt := Std.OrientedCmp.gt_of_lt hab
      rw [hba] at hgt
      cases hgt⟩
  exact List.Pairwise.eq_of_mem_iff h hl hsame

end OrderedMap

namespace FunctionKey

instance : Std.TransOrd FunctionKey :=
  inferInstanceAs <| Std.TransCmp <| compareOn FunctionKey.text

instance : Std.LawfulEqOrd FunctionKey where
  eq_of_compare {a b} h := by
    obtain ⟨text⟩ := a
    obtain ⟨text'⟩ := b
    have h : compare text text' = .eq := h
    simpa using h

end FunctionKey

/-! ## Variables named there and back -/

/-- A variable and its name elsewhere, which leads back to it. -/
structure Renaming.Pairs (ρ σ : Renaming) (arena : Arena) (v w : VarId) : Prop where
  lt : v < arena.size
  forth : ρ.var v = w
  back : σ.var w = v

/-- Maps whose sets hold one variable each, under its name in one of them and in the other. -/
theorem OrderedMap.entries_correspond {κ : Type} [DecidableEq κ] [Ord κ] [Std.TransOrd κ]
    {m m' : OrderedMap κ VarSet} {arena arena' : Arena} (hm : m.Sorted) (hm' : m'.Sorted)
    (h : ∀ k set, m.find? k = some set → ∃ v, set = .singleton v ∧
      ρ.Pairs σ arena v (ρ.var v) ∧ m'.find? k = some (.singleton (ρ.var v)))
    (h' : ∀ k set, m'.find? k = some set → ∃ w, set = .singleton w ∧
      σ.Pairs ρ arena' w (σ.var w) ∧ m.find? k = some (.singleton (σ.var w))) :
    List.Forall₂ (fun e e' => e'.1 = e.1 ∧ VarSet.Corresponds (ρ.Pairs σ arena) e.2 e'.2)
      m.entries m'.entries := by
  have hentries : m'.entries = m.entries.map fun e => (e.1, e.2.rename ρ) := by
    refine hm'.entries_eq (List.pairwise_map.2 hm) fun e => ?_
    rw [← hm'.find?_eq_some, List.mem_map]
    constructor
    · intro he
      obtain ⟨w, hset, hw, hhere⟩ := h' _ _ he
      refine ⟨(e.1, _), hm.find?_eq_some.1 hhere, ?_⟩
      rw [VarSet.rename_singleton, hw.back, ← hset]
    · rintro ⟨⟨k, set⟩, he, rfl⟩
      obtain ⟨v, rfl, -, hthere⟩ := h k set (hm.find?_eq_some.2 he)
      exact hthere
  rw [hentries]
  refine List.forall₂_map_right_iff.2 (List.forall₂_same.2 fun e he => ⟨rfl, ?_⟩)
  obtain ⟨v, hset, hv, -⟩ := h _ _ (hm.find?_eq_some.2 he)
  rw [hset]
  exact .cons hv .nil

namespace Arena

variable {arena arena' : Arena} {m n : Nat}

/-- Each arena stands in the other. -/
structure Entwined (ρ σ : Renaming) (arena arena' : Arena) : Prop where
  forth : arena.Embeds ρ arena'
  back : arena'.Embeds σ arena

namespace Entwined

variable (h : Entwined ρ σ arena arena') (hvw : ρ.Pairs σ arena v w)

include h hvw

theorem getElem? {x : Variable} (hx : arena[v]? = some x) :
    arena'[w]? = some (x.rename ρ) ∧ (x.rename ρ).rename σ = x := by
  have hx' := hvw.forth ▸ h.forth v x hx
  have hback := hvw.back ▸ h.back w _ hx'
  exact ⟨hx', Option.some.inj (hback.symm.trans hx)⟩

theorem name_eq : arena'[w]?.map Variable.name = arena[v]?.map Variable.name := by
  obtain ⟨x, hx⟩ : ∃ x, arena[v]? = some x := ⟨_, Array.getElem?_eq_getElem hvw.lt⟩
  rw [hx, (h.getElem? hvw hx).1]
  cases x <;> rfl

/-- The levels of a pointer are named there and back, and so is the function that it leads to. -/
theorem pointer? {p : PointerVariable} (hwf : arena.WellFormed n) (hp : arena.pointer? v = some p) :
    arena'.pointer? w = some (p.rename ρ) ∧ (∀ a ∈ p.atoms, σ.atom (ρ.atom a) = a) ∧
      ∀ f, p.function = some f → ρ.Pairs σ arena f (ρ.var f) := by
  obtain ⟨hx, hsame⟩ := h.getElem? hvw (getElem?_of_pointer? hp)
  have hsame := Variable.pointer.inj hsame
  refine ⟨pointer?_of_getElem? hx, ?_, fun f hf => ?_⟩
  · exact eq_of_map_map (congrArg PointerVariable.atoms hsame)
  · have hfunction := congrArg PointerVariable.function hsame
    simp only [PointerVariable.rename, hf, Option.map_some, Option.some.injEq] at hfunction
    exact ⟨lt_of_isFunction (hwf.attached hp hf).2, rfl, hfunction⟩

/-- What a function takes and returns is named there and back. -/
theorem function? {f : FunctionVariable} (hwf : arena.WellFormed n)
    (hf : arena.function? v = some f) : arena'.function? w = some (f.rename ρ) ∧
      ∀ slot ∈ f.slots, ∀ x ∈ slot, ρ.Pairs σ arena x (ρ.var x) := by
  obtain ⟨hx, hsame⟩ := h.getElem? hvw (getElem?_of_function? hf)
  have hsame := Variable.function.inj hsame
  refine ⟨function?_of_getElem? hx, fun slot hslot x hmem => ?_⟩
  have hslots : (f.slots.map (VarSet.rename ρ)).map (VarSet.rename σ) = f.slots := by
    rw [← FunctionVariable.slots_rename, ← FunctionVariable.slots_rename, hsame]
  have hmembers := congrArg VarSet.members (eq_of_map_map hslots slot hslot)
  exact ⟨(hwf.slot_lt hf hslot hmem).2, rfl, eq_of_map_map hmembers x hmem⟩

/-- What is a function here is a function there, and its slots correspond. -/
theorem function_corresponds (hwf : arena.WellFormed n) :
    Option.Rel (FunctionVariable.Corresponds (ρ.Pairs σ arena)) (arena.function? v)
      (arena'.function? w) := by
  cases hf : arena.function? v with
  | none =>
    rw [← hvw.forth, h.forth.function?_eq hvw.lt, hf]
    exact .none
  | some f =>
    obtain ⟨hf', hslots⟩ := h.function? hvw hwf hf
    have hslot : ∀ slot ∈ f.slots, slot.Corresponds (ρ.Pairs σ arena) (slot.rename ρ) :=
      fun slot hslot => List.forall₂_map_right_iff.2 (List.forall₂_same.2 (hslots slot hslot))
    rw [hf']
    refine .some ⟨hslot _ List.mem_cons_self, ?_, rfl, rfl⟩
    exact List.forall₂_map_right_iff.2 (List.forall₂_same.2 fun slot hmem =>
      hslot slot (List.mem_cons_of_mem _ hmem))

/-- The atoms that repair looks at are named there and back. -/
theorem levels (hwf : arena.WellFormed n) (hwf' : arena'.WellFormed m) :
    arena'.levels w = (arena.levels v).map ρ.atom ∧
      ∀ a ∈ arena.levels v, σ.atom (ρ.atom a) = a := by
  cases hp : arena.pointer? v with
  | some p =>
    obtain ⟨hp', hatoms, -⟩ := h.pointer? hvw hwf hp
    simp only [Arena.levels, hp, hp']
    exact ⟨rfl, hatoms⟩
  | none =>
    have hp' : arena'.pointer? w = none := by
      rw [← hvw.forth, h.forth.pointer?_eq hvw.lt, hp]
      rfl
    obtain ⟨x, hx⟩ : ∃ x, arena[v]? = some x := ⟨_, Array.getElem?_eq_getElem hvw.lt⟩
    obtain ⟨hx', -⟩ := h.getElem? hvw hx
    have hw : w < arena'.size := (Array.getElem?_eq_some_iff.1 hx').1
    obtain ⟨atoms, hatoms, -⟩ := hwf.exists_atoms hvw.lt
    obtain ⟨atoms', hatoms', -⟩ := hwf'.exists_atoms hw
    have hforth := h.forth.atoms_eq hatoms (hvw.forth.symm ▸ hatoms')
    have hback := h.back.atoms_eq hatoms' (hvw.back.symm ▸ hatoms)
    simp only [Arena.levels, hp, hp', hatoms, hatoms', Option.getD_some]
    exact ⟨hforth, eq_of_map_map (by rw [← hforth, ← hback])⟩

end Entwined

/-! ### Reports -/

section

variable (h : Entwined ρ σ arena arena') {sol sol' : Solution}
  (hsol : ∀ a, σ.atom (ρ.atom a) = a → sol'.category (ρ.atom a) = sol.category a)

include h hsol

/-- Variables that stand for one another are reported alike at every depth. -/
theorem Entwined.reportWithin (hwf : arena.WellFormed n) {k : Nat} {r : Report}
    (hvw : ρ.Pairs σ arena v w) (hr : arena.reportWithin sol k v = some r) :
    arena'.reportWithin sol' k w = some r := by
  induction k generalizing v w r with
  | zero => cases hr
  | succ k ih =>
    obtain ⟨x, hx, hr⟩ := Option.bind_eq_some_iff.1 hr
    refine Option.bind_eq_some_iff.2 ⟨_, (h.getElem? hvw hx).1, ?_⟩
    cases x with
    | pointer p =>
      obtain ⟨-, hatoms, hfunction⟩ := h.pointer? hvw hwf (pointer?_of_getElem? hx)
      have hcategories : (p.atoms.map ρ.atom).map sol'.category = p.atoms.map sol.category := by
        rw [List.map_map]
        exact List.map_congr_left fun a ha => hsol a (hatoms a ha)
      cases hf : p.function with
      | none =>
        simp only [hf] at hr
        simpa [Variable.rename, PointerVariable.rename, hf, hcategories] using hr
      | some f =>
        simp only [hf] at hr
        obtain ⟨below, hbelow, hr⟩ := Option.bind_eq_some_iff.1 hr
        obtain rfl := Option.some.inj hr
        simp [Variable.rename, PointerVariable.rename, hf, hcategories,
          ih (hfunction f hf) hbelow]
    | function f =>
      obtain ⟨-, hslots⟩ := h.function? hvw hwf (function?_of_getElem? hx)
      have hslot : ∀ slot ∈ f.slots, ∀ rs,
          slot.members.mapM (arena.reportWithin sol k) = some rs →
            (slot.rename ρ).members.mapM (arena'.reportWithin sol' k) = some rs := by
        intro slot hslot rs hrs
        have hmoved : (slot.members.map ρ.var).mapM (arena'.reportWithin sol' k) =
            some (rs.map id) := mapM_map_eq_some hrs fun y hy _ => ih (hslots slot hslot y hy)
        rwa [List.map_id] at hmoved
      obtain ⟨returns, hreturns, hr⟩ := Option.bind_eq_some_iff.1 hr
      obtain ⟨params, hparams, hr⟩ := Option.bind_eq_some_iff.1 hr
      refine Option.bind_eq_some_iff.2 ⟨returns, hslot _ List.mem_cons_self _ hreturns, ?_⟩
      have hmoved : (f.params.map (VarSet.rename ρ)).mapM (fun slot =>
          slot.members.mapM (arena'.reportWithin sol' k)) = some (params.map id) :=
        mapM_map_eq_some hparams fun slot hmem rs => hslot slot (List.mem_cons_of_mem _ hmem) rs
      rw [List.map_id] at hmoved
      exact Option.bind_eq_some_iff.2 ⟨params, hmoved, hr⟩

/-- The reports on a variable here and there are the same. -/
theorem Entwined.report? (hwf : arena.WellFormed n) (hwf' : arena'.WellFormed m)
    (hvw : ρ.Pairs σ arena v w) : arena'.report? sol' w = arena.report? sol v := by
  have hw : w < arena'.size :=
    (Array.getElem?_eq_some_iff.1 (h.getElem? hvw (Array.getElem?_eq_getElem hvw.lt)).1).1
  obtain ⟨r, hr⟩ := hwf.exists_report sol hvw.lt
  obtain ⟨r', hr'⟩ := hwf'.exists_report sol' hw
  have hhere := reportWithin_mono hr (Nat.le_max_left (v + 1) (w + 1))
  have hthere := reportWithin_mono hr' (Nat.le_max_right (v + 1) (w + 1))
  rw [hr, hr', Option.some.inj (hthere.symm.trans (h.reportWithin hsol hwf hvw hhere))]

end

end Arena

/-! ## Sessions that stand in each other -/

namespace Session

variable {b s t : Session} {options : Options} {units units' : List TranslationUnit}
  {key : FunctionKey} {set : VarSet}

def AscendingDeclarations (s : Session) : Prop :=
  ∀ key set, s.pairing.declared? key = some set → set.Ascending

theorem AscendingDeclarations.declare (h : s.AscendingDeclarations) (key : FunctionKey)
    (v : VarId) (ht : t.pairing = s.pairing.declare key v) : t.AscendingDeclarations := by
  intro key' set hset
  rw [ht] at hset
  simp only [Pairing.declare, Pairing.declared?, OrderedMap.find?_insert] at hset
  split at hset
  · obtain rfl := Option.some.inj hset
    cases hold : s.pairing.declarations.find? key with
    | none => exact VarSet.ascending_empty.insert v
    | some old => exact (h key old hold).insert v
  · exact h key' set hset

/-- Under every key functions are declared in the order in which they were made. -/
theorem Reachable.ascendingDeclarations (h : Reachable options s) : s.AscendingDeclarations := by
  apply h.keeps (P := AscendingDeclarations)
  · rintro _ _ ⟨⟩
  · intro s t _ hst hall
    cases hst.step with
    | declares key _ => exact hall.declare key _ rfl
    | visits h =>
      cases h with
      | looks h =>
        cases h with
        | builds h =>
          rw [h.only]
          exact hall
        | signs => exact hall.declare _ _ rfl
        | derives | bottoms | quotes | guesses => exact hall
      | records h =>
        rw [h.only]
        exact hall
      | collects => exact hall
    | _ => exact hall
  · exact fun _ hall => hall

/-- The keys of the signatures made on demand ascend. -/
theorem Reachable.implicits_sorted (h : Reachable options s) : s.implicits.Sorted := by
  apply h.keeps OrderedMap.sorted_empty
  · intro s t _ hst hsorted
    cases hst.step with
    | visits h =>
      cases h with
      | looks h =>
        cases h with
        | builds h =>
          rw [h.only]
          exact hsorted
        | signs => exact hsorted.insert _ _
        | derives | bottoms | quotes | guesses => exact hsorted
      | records h =>
        rw [h.only]
        exact hsorted
      | collects => exact hsorted
    | _ => exact hsorted
  · exact fun _ hsorted => hsorted

/-! ### Signatures made on demand -/

section

variable (h : s.Embeds ρ t) (h' : t.Embeds σ s)

include h h'

/-- A signature made on demand has a counterpart made under the same key. -/
theorem Embeds.implicit (hset : s.implicits.find? key = some set) :
    ∃ v, set = .singleton v ∧ ρ.Pairs σ s.arena v (ρ.var v) ∧
      t.implicits.find? key = some (.singleton (ρ.var v)) := by
  obtain ⟨v, rfl, hthere⟩ := h.implicits key set hset
  obtain ⟨v', hv', hhere⟩ := h'.implicits key _ hthere
  have hsame : v' = ρ.var v := ((List.cons.inj (congrArg VarSet.members hv')).1).symm
  have hback := Option.some.inj (hset.symm.trans hhere)
  rw [hsame] at hback
  have hfun := h.wellFormed.implicits _ (OrderedMap.mem_of_find? hset) v
    ((VarSet.mem_singleton v v).2 rfl)
  refine ⟨v, rfl, ⟨Arena.lt_of_isFunction hfun, rfl, ?_⟩, hthere⟩
  exact ((List.cons.inj (congrArg VarSet.members hback)).1).symm

/-- Signatures on demand correspond in order, since both lists ascend. -/
theorem Embeds.implicits_correspond (key : FunctionKey) :
    VarSet.Corresponds (ρ.Pairs σ s.arena) (s.implicitsUnder key) (t.implicitsUnder key) := by
  rw [implicitsUnder, implicitsUnder]
  cases hset : s.implicits.find? key with
  | some set =>
    obtain ⟨x, rfl, hx, hset'⟩ := h.implicit h' hset
    rw [hset']
    exact .cons hx .nil
  | none =>
    cases hset' : t.implicits.find? key with
    | none => exact .nil
    | some set' =>
      obtain ⟨x, -, -, hset''⟩ := h'.implicit h hset'
      cases hset.symm.trans hset''

/-- The signatures made on demand stand in the same order. -/
theorem Embeds.implicits_entries (hs : Reachable options s) (ht : Reachable options t) :
    List.Forall₂ (fun e e' => e'.1 = e.1 ∧ VarSet.Corresponds (ρ.Pairs σ s.arena) e.2 e'.2)
      s.implicits.entries t.implicits.entries :=
  OrderedMap.entries_correspond hs.implicits_sorted ht.implicits_sorted
    (fun _ _ => h.implicit h') fun _ _ => h'.implicit h

end

structure AfterUnits (options : Options) (units : List TranslationUnit) (b s : Session) : Prop where
  reachable : Reachable options s
  follows : b.Follows s
  demands : Demands units b s

/-- What came of one indexed program in two ways, either of which stands in the other. What the
program had keeps its names. -/
structure Entwined (options : Options) (units units' : List TranslationUnit) (ρ σ : Renaming)
    (b s t : Session) : Prop where
  indexed : b.WellFormed
  left : AfterUnits options units b s
  right : AfterUnits options units' b t
  agrees : Renaming.id.Agrees ρ b.solver.cells.size b.arena.size
  agrees' : Renaming.id.Agrees σ b.solver.cells.size b.arena.size
  forth : s.Embeds ρ t
  back : t.Embeds σ s

namespace Entwined

variable (h : Entwined options units units' ρ σ b s t)

include h

theorem symm : Entwined options units' units σ ρ b t s :=
  ⟨h.indexed, h.right, h.left, h.agrees', h.agrees, h.back, h.forth⟩

theorem arena : Arena.Entwined ρ σ s.arena t.arena := ⟨h.forth.arena, h.back.arena⟩

theorem pairs_self (hv : v < b.arena.size) : ρ.Pairs σ s.arena v v :=
  ⟨Nat.lt_of_lt_of_le hv h.left.follows.arena.size_le, h.agrees.var v hv, h.agrees'.var v hv⟩

/-- What is declared was there from the start or was made on demand. -/
theorem declared_or_implicit (hset : s.pairing.declared? key = some set) (hv : v ∈ set) :
    v < b.arena.size ∨ v ∈ s.implicitsUnder key := by
  have hv : v ∈ s.pairing.declaredUnder key := by rwa [Pairing.declaredUnder, hset]
  refine (h.left.demands.added key v hv).imp_left fun hv => ?_
  exact Arena.lt_of_isFunction (Declared.isFunction ⟨key, hv⟩ h.indexed)

/-- Whatever is declared under a key has its counterpart. -/
theorem declared_pairs (hset : s.pairing.declared? key = some set) (hv : v ∈ set) :
    ρ.Pairs σ s.arena v (ρ.var v) := by
  rcases h.declared_or_implicit hset hv with hv | hv
  · have hself := h.pairs_self hv
    rwa [hself.forth]
  · unfold implicitsUnder at hv
    cases hmade : s.implicits.find? key with
    | none => simp [hmade] at hv
    | some made =>
      obtain ⟨w, rfl, hw, -⟩ := h.forth.implicit h.back hmade
      rw [hmade] at hv
      obtain rfl := (VarSet.mem_singleton w v).1 hv
      exact hw

/-- What was not there from the start was made under one key only once. -/
theorem declared_once (hset : s.pairing.declared? key = some set) (hv : v ∈ set) (hw : w ∈ set)
    (hnew : b.arena.size ≤ v) (hnew' : b.arena.size ≤ w) : v = w := by
  have hv := (h.declared_or_implicit hset hv).resolve_left (Nat.not_lt.2 hnew)
  have hw := (h.declared_or_implicit hset hw).resolve_left (Nat.not_lt.2 hnew')
  unfold implicitsUnder at hv hw
  cases hmade : s.implicits.find? key with
  | none => simp [hmade] at hv
  | some made =>
    obtain ⟨x, rfl, -⟩ := h.forth.implicit h.back hmade
    rw [hmade] at hv hw
    exact ((VarSet.mem_singleton x v).1 hv).trans ((VarSet.mem_singleton x w).1 hw).symm

/-- A variable that is new here is new there. -/
theorem new_there (hvw : ρ.Pairs σ s.arena v w) (hv : b.arena.size ≤ v) : b.arena.size ≤ w := by
  by_contra hw
  have hself : σ.var w = w := h.agrees'.var w (Nat.lt_of_not_le hw)
  rw [hvw.back] at hself
  exact hw (hself ▸ hv)

/-- Names keep the order of what is declared under one key. -/
theorem declared_lt (hset : s.pairing.declared? key = some set) (hv : v ∈ set) (hw : w ∈ set)
    (hlt : v < w) : ρ.var v < ρ.var w := by
  have hwpairs := h.declared_pairs hset hw
  by_cases hold : w < b.arena.size
  · rw [(h.pairs_self (Nat.lt_trans hlt hold)).forth, (h.pairs_self hold).forth]
    exact hlt
  · have hnew := Nat.le_of_not_lt hold
    have hvold : v < b.arena.size := by
      by_contra hvnew
      have hsame := h.declared_once hset hv hw (Nat.le_of_not_lt hvnew) hnew
      exact Nat.lt_irrefl v (hsame ▸ hlt)
    rw [(h.pairs_self hvold).forth]
    exact Nat.lt_of_lt_of_le hvold (h.new_there hwpairs hnew)

/-- The same is declared under a key in both sessions. -/
theorem declared (key : FunctionKey) :
    Option.Rel (VarSet.Corresponds (ρ.Pairs σ s.arena)) (s.pairing.declared? key)
      (t.pairing.declared? key) := by
  cases hset : s.pairing.declared? key with
  | none =>
    cases hset' : t.pairing.declared? key with
    | none => exact .none
    | some set' =>
      obtain ⟨set, hset'', -⟩ := h.back.declared key set' hset'
      cases hset.symm.trans hset''
  | some set =>
    obtain ⟨set', hset', hforth⟩ := h.forth.declared key set hset
    obtain ⟨set'', hset'', hback⟩ := h.back.declared key set' hset'
    obtain rfl := Option.some.inj (hset.symm.trans hset'')
    have hrenamed : (set.rename ρ).Ascending := by
      have hascending := h.left.reachable.ascendingDeclarations _ _ hset
      exact List.pairwise_map.2 <| hascending.imp_of_mem fun hv hw hlt =>
        h.declared_lt hset hv hw hlt
    have hsame : set' = set.rename ρ := by
      refine (h.right.reachable.ascendingDeclarations _ _ hset').ext hrenamed fun w => ?_
      constructor
      · intro hw
        exact VarSet.mem_rename.2 ⟨σ.var w, hback w hw, (h.symm.declared_pairs hset' hw).back⟩
      · intro hw
        obtain ⟨v, hv, rfl⟩ := VarSet.mem_rename.1 hw
        exact hforth v hv
    rw [hset', hsame]
    exact .some (List.forall₂_map_right_iff.2 (List.forall₂_same.2 fun v hv =>
      h.declared_pairs hset hv))

end Entwined

end Session

end CheckedPointers
