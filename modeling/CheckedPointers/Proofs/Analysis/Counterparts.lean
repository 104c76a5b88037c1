import CheckedPointers.Proofs.Analysis.Revisiting
import CheckedPointers.Proofs.Session.Signatures
import CheckedPointers.Proofs.Session.Twins

/-!
What two orders of the same units leave. Each stands in the other; and what the tables of the one
hold has its counterpart in the tables of the other, though perhaps at another place.
-/
namespace CheckedPointers

open Op TranslationUnit

/-- A list whose elements are those of another one under other names. -/
theorem List.perm_map_of_renamed {α β : Type} {l : List α} {l' : List β} {f : α → β} {g : β → α}
    (hl : l.Nodup) (hl' : l'.Nodup) (h : ∀ a ∈ l, f a ∈ l' ∧ g (f a) = a)
    (h' : ∀ b ∈ l', g b ∈ l ∧ f (g b) = b) : (l.map f).Perm l' := by
  have hnodup : (l.map f).Nodup := hl.map_on fun a ha b hb hab => by
    rw [← (h a ha).2, hab, (h b hb).2]
  refine (List.perm_ext_iff_of_nodup hnodup hl').2 fun b => ?_
  rw [List.mem_map]
  constructor
  · rintro ⟨a, ha, rfl⟩
    exact (h a ha).1
  · exact fun hb => ⟨g b, h' b hb⟩

namespace VarSet

variable {set : VarSet} {v : VarId}

theorem Ascending.nodup (h : set.Ascending) : set.members.Nodup := h.imp Nat.ne_of_lt

/-- A set in order whose only member is this one. -/
theorem Ascending.eq_singleton (h : set.Ascending) (hv : v ∈ set) (honly : ∀ w ∈ set, w = v) :
    set = .singleton v :=
  h.ext (ascending_singleton v) fun w =>
    ⟨fun hw => (mem_singleton v w).2 (honly w hw), fun hw => (mem_singleton v w).1 hw ▸ hv⟩

end VarSet

namespace Session

variable {options : Options} {units units' : List TranslationUnit} {ρ σ : Renaming}
  {b b' s t : Session} {made made' : Making → Prop} {m : Making} {a : Anchor} {v w : VarId}
  {key : FunctionKey} {name : String}

/-- The same units were indexed and followed in two orders, and each session stands in the other. -/
structure TwoOrders (options : Options) (units units' : List TranslationUnit) (ρ σ : Renaming)
    (made made' : Making → Prop) (b b' s t : Session) : Prop where
  concordant : Concordant units
  perm : units.Perm units'
  index : (indexUnits units).Ends (.new options) ⟨⟩ b
  index' : (indexUnits units').Ends (.new options) ⟨⟩ b'
  origins : Origins (Declares units) made b
  origins' : Origins (Declares units') made' b'
  left : AfterUnits options units b s
  right : AfterUnits options units' b' t
  forth : s.Embeds ρ t
  back : t.Embeds σ s

namespace TwoOrders

variable (h : TwoOrders options units units' ρ σ made made' b b' s t)

include h

theorem symm : TwoOrders options units' units σ ρ made' made b' b t s :=
  ⟨h.concordant.perm h.perm, h.perm.symm, h.index', h.index, h.origins', h.origins, h.right, h.left,
    h.back, h.forth⟩

theorem arena : Arena.Entwined ρ σ s.arena t.arena := ⟨h.forth.arena, h.back.arena⟩

theorem hasIndexed : HasIndexed options units b := hasIndexed_of_ends h.index

theorem storedAt (a : Anchor) : s.storedAt a = b.storedAt a := by
  rw [Session.storedAt, h.left.follows.index, Session.storedAt]

/-! ### Anchors -/

theorem lone (hv : v ∈ s.storedAt a) : s.storedAt a = .singleton v := by
  rw [h.storedAt] at hv ⊢
  exact h.hasIndexed.storedAt_eq h.concordant hv

/-- What stands at an anchor has its counterpart there. -/
theorem stored (hv : v ∈ s.storedAt a) :
    ρ.Pairs σ s.arena v (ρ.var v) ∧ ρ.var v ∈ t.storedAt a := by
  have hthere := ((h.forth.stored a).images _).2 ⟨v, hv, rfl⟩
  have hhere := ((h.back.stored a).images _).2 ⟨ρ.var v, hthere, rfl⟩
  rw [h.lone hv] at hhere
  exact ⟨⟨h.forth.wellFormed.stored_lt hv, rfl, (VarSet.mem_singleton v _).1 hhere⟩, hthere⟩

/-- An anchor holds the same single variable in both orders, up to the names. -/
theorem entry {set : VarSet} (hset : s.index.find? a = some set) :
    ∃ v, set = .singleton v ∧ ρ.Pairs σ s.arena v (ρ.var v) ∧
      t.index.find? a = some (.singleton (ρ.var v)) := by
  have hcontains : s.index.contains a := by rw [OrderedMap.contains, hset, Option.isSome_some]
  obtain ⟨v, hv⟩ : ∃ v, v ∈ s.storedAt a := by
    rw [h.left.follows.index] at hcontains
    rw [h.storedAt]
    exact (h.hasIndexed.contains_iff h.concordant).1 hcontains
  obtain ⟨hpairs, hthere⟩ := h.stored hv
  have hset' : s.storedAt a = set := by rw [Session.storedAt, hset, Option.getD_some]
  have hthere' := h.symm.lone hthere
  refine ⟨v, hset' ▸ h.lone hv, hpairs, ?_⟩
  have hcontains' : t.index.contains a := h.forth.index a ▸ hcontains
  obtain ⟨set', hfound⟩ := Option.isSome_iff_exists.1 hcontains'
  rw [Session.storedAt, hfound, Option.getD_some] at hthere'
  rw [hfound, hthere']

/-- The same stands in the index of both. -/
theorem index_entries :
    List.Forall₂ (fun e e' => e'.1 = e.1 ∧ VarSet.Corresponds (ρ.Pairs σ s.arena) e.2 e'.2)
      s.index.entries t.index.entries :=
  OrderedMap.entries_correspond h.left.reachable.sortedTables.index
    h.right.reachable.sortedTables.index (fun _ _ => h.entry) fun _ _ => h.symm.entry

/-! ### Functions -/

/-- A function of the one order was made in the other one too, for a declaration at the same
anchor. -/
theorem counterpart (hm : made m) : ∃ m', made' m' ∧ m'.var = ρ.var m.var ∧
    m'.decl.anchor = m.decl.anchor ∧ m'.decl.key = m.decl.key ∧
      m'.decl.hasBody = m.decl.hasBody := by
  have hplace := h.origins.place m hm
  rw [← h.storedAt] at hplace
  obtain ⟨f, hf, -⟩ := h.origins.var m hm
  have hf := h.forth.arena.function? (h.left.follows.arena.function? hf)
  obtain ⟨-, hthere⟩ := h.stored hplace
  rw [h.symm.storedAt] at hthere
  have hlt := h.symm.hasIndexed.reachable.wellFormed.stored_lt hthere
  have hfun : b'.arena.isFunction (ρ.var m.var) := by
    rw [← h.right.follows.arena.isFunction_eq hlt]
    exact Arena.isFunction_iff.2 ⟨_, hf⟩
  obtain ⟨m', hm', hvar, hanchor⟩ := h.origins'.only _ _ hthere hfun
  have hmem := h.origins.mem_functionDecls hm
  have hmem' := (functionDecls_perm h.perm).mem_iff.2 (h.origins'.mem_functionDecls hm')
  obtain ⟨hkey, hbody⟩ := h.concordant.keys _ hmem' _ hmem
  exact ⟨m', hm', hvar, hanchor, hkey.2 hanchor, hbody hanchor⟩

/-- What was made for a function stands for it in both orders. -/
theorem made_pairs (hm : made m) : ρ.Pairs σ s.arena m.var (ρ.var m.var) := by
  have hplace := h.origins.place m hm
  rw [← h.storedAt] at hplace
  exact (h.stored hplace).1

/-! ### Definitions -/

/-- A definition is recorded under its key. -/
theorem defined (hm : made m) (hbody : m.decl.hasBody) :
    (m.decl.key, VarSet.singleton m.var) ∈ s.pairing.definitions := by
  rw [h.left.demands.definitions]
  have hcomplete : b.Complete :=
    ((indexUnits_meets units (wellFormed_new options)).of_ends h.index).2.2 (complete_new options)
  obtain ⟨f, hf, -, hfbody⟩ := h.origins.var m hm
  have hplace := h.origins.place m hm
  obtain ⟨⟨key, set⟩, he, hv⟩ := hcomplete _ _ hplace f hf (hfbody ▸ hbody)
  -- whatever is recorded under a key was made for one and the same declaration
  have honly (w : VarId) (hw : w ∈ set) : ∃ m', made m' ∧ m'.var = w ∧ m'.decl.key = key := by
    obtain ⟨m', hm', hvar, -, hkey⟩ := h.origins.definitions _ he w hw
    exact ⟨m', hm', hvar, hkey⟩
  obtain ⟨m', hm', hvar, hkey⟩ := honly m.var hv
  have hplanted := (h.hasIndexed.grown h.concordant.listing fun _ h => h).planted
  have hanchor := hplanted.once _ _ m.var hplace (hvar ▸ h.origins.place m' hm')
    (Arena.isFunction_iff.2 ⟨f, hf⟩)
  obtain rfl := h.origins.once m m' hm hm' hanchor
  obtain rfl := hkey
  have hset : set = .singleton m.var := by
    refine (h.hasIndexed.reachable.tight.definitions _ he).1.eq_singleton hv fun w hw => ?_
    obtain ⟨m', hm', rfl, hkey⟩ := honly w hw
    rw [h.origins.eq_of_key h.concordant.keys hm' hm hkey]
  exact hset ▸ he

/-- Under each key one definition is recorded. -/
theorem exists_defined {e : FunctionKey × VarSet} (he : e ∈ s.pairing.definitions) :
    ∃ m, made m ∧ m.decl.hasBody ∧ e = (m.decl.key, .singleton m.var) := by
  rw [h.left.demands.definitions] at he
  obtain ⟨hascending, v, hv⟩ := h.hasIndexed.reachable.tight.definitions e he
  obtain ⟨m, hm, rfl, hbody, hkey⟩ := h.origins.definitions e he v hv
  refine ⟨m, hm, hbody, Prod.ext hkey.symm (hascending.eq_singleton hv fun w hw => ?_)⟩
  obtain ⟨m', hm', rfl, -, hkey'⟩ := h.origins.definitions e he w hw
  rw [h.origins.eq_of_key h.concordant.keys hm' hm (hkey'.trans hkey.symm)]

theorem defined_there {e : FunctionKey × VarSet} (he : e ∈ s.pairing.definitions) :
    ∃ v, e.2 = .singleton v ∧ ρ.Pairs σ s.arena v (ρ.var v) ∧
      (e.1, VarSet.singleton (ρ.var v)) ∈ t.pairing.definitions := by
  obtain ⟨m, hm, hbody, rfl⟩ := h.exists_defined he
  obtain ⟨m', hm', hvar, -, hkey, hbody'⟩ := h.counterpart hm
  have hthere := h.symm.defined hm' (hbody' ▸ hbody)
  rw [hvar, hkey] at hthere
  exact ⟨m.var, rfl, h.made_pairs hm, hthere⟩

/-- The same is defined in both, though in another order. -/
theorem definitions : ∃ l, List.Forall₂ (fun e e' => e.1 = e'.1 ∧
    VarSet.Corresponds (ρ.Pairs σ s.arena) e.2 e'.2) s.pairing.definitions l ∧
      l.Perm t.pairing.definitions := by
  refine ⟨s.pairing.definitions.map fun e => (e.1, e.2.rename ρ), ?_, ?_⟩
  · refine List.forall₂_map_right_iff.2 (List.forall₂_same.2 fun e he => ⟨rfl, ?_⟩)
    obtain ⟨v, hset, hv, -⟩ := h.defined_there he
    rw [hset]
    exact .cons hv .nil
  · refine List.perm_map_of_renamed (g := fun e => (e.1, e.2.rename σ))
      (.of_map Prod.fst h.left.reachable.tight.keys)
      (.of_map Prod.fst h.right.reachable.tight.keys) ?_ ?_
    · rintro ⟨key, set⟩ he
      obtain ⟨v, rfl, hv, hthere⟩ := h.defined_there he
      exact ⟨hthere, by simp [hv.back]⟩
    · rintro ⟨key, set⟩ he
      obtain ⟨w, rfl, hw, hhere⟩ := h.symm.defined_there he
      exact ⟨hhere, by simp [hw.back]⟩

/-! ### Declarations -/

/-- What is declared under a key is declared under it in both. -/
theorem declared_there (hv : v ∈ s.pairing.declaredUnder key) :
    ρ.Pairs σ s.arena v (ρ.var v) ∧ ρ.var v ∈ t.pairing.declaredUnder key := by
  constructor
  · rcases h.left.demands.added key v hv with hv | hv
    · obtain ⟨m, hm, rfl, -⟩ := (h.origins.declarations key v).1 hv
      exact h.made_pairs hm
    · unfold implicitsUnder at hv
      cases hset : s.implicits.find? key with
      | none => simp [hset] at hv
      | some set =>
        obtain ⟨x, rfl, hx, -⟩ := h.forth.implicit h.back hset
        rw [hset] at hv
        obtain rfl := (VarSet.mem_singleton x v).1 hv
        exact hx
  · cases hset : s.pairing.declared? key with
    | none => simp [Pairing.declaredUnder, hset] at hv
    | some set =>
      obtain ⟨set', hset', hmoved⟩ := h.forth.declared key set hset
      rw [Pairing.declaredUnder, hset] at hv
      rw [Pairing.declaredUnder, hset']
      exact hmoved v hv

/-- A definition is linked with the key of the prototype in its unit, whichever unit that is. -/
theorem paired_there {key' : FunctionKey} (hkey : s.pairing.pairedKey? key = some key') :
    t.pairing.pairedKey? key = some key' := by
  rw [Pairing.pairedKey?, h.left.demands.pairs] at hkey
  obtain ⟨m, hm, hbody, rfl, hprototype⟩ := h.origins.pairs key key' hkey
  obtain ⟨m', hm', -, hanchor, hsame, hbody'⟩ := h.counterpart hm
  have hsite := h.origins.site m hm
  have hsite' := h.origins'.site m' hm'
  have hprototype' : m'.HasPrototype key' :=
    h.concordant.prototypes m.unit hsite.1 m'.unit (h.perm.mem_iff.2 hsite'.1) m.id m'.id m.decl
      m'.decl hsite.decl hsite'.decl hbody hanchor.symm key' hprototype
  obtain ⟨key'', hfound⟩ := Option.isSome_iff_exists.1
    (h.origins'.paired m' key' hm' (hbody' ▸ hbody) hprototype')
  have hsingle := h.origins'.hasPrototype_of_paired (h.concordant.perm h.perm).keys hm' hfound
  rw [Pairing.pairedKey?, h.right.demands.pairs, ← hsame, hprototype'.unique hsingle]
  exact hfound

theorem pairedKey?_eq (key : FunctionKey) :
    t.pairing.pairedKey? key = s.pairing.pairedKey? key := by
  cases hkey : s.pairing.pairedKey? key with
  | some key' => exact h.paired_there hkey
  | none =>
    cases hkey' : t.pairing.pairedKey? key with
    | none => rfl
    | some key' => cases hkey.symm.trans (h.symm.paired_there hkey')

/-- A variant of a name is a variant of it in both. -/
theorem variant_there (hv : v ∈ s.variants name) :
    ρ.Pairs σ s.arena v (ρ.var v) ∧ ρ.var v ∈ t.variants name := by
  have hfun := h.forth.wellFormed.variant hv
  rw [variants, h.left.follows.globals] at hv
  obtain ⟨u, id, d, ⟨hu, ids, hids, hid, hd⟩, hglobal, rfl, hplace⟩ := h.origins.variants name v hv
  rw [← h.storedAt] at hplace
  obtain ⟨hpairs, hthere⟩ := h.stored hplace
  refine ⟨hpairs, ?_⟩
  have hnoted := ((indexUnits_meets units' (wellFormed_new options)).of_ends h.index').2.1 u
    (h.perm.mem_iff.1 hu) ids hids
  rw [h.symm.storedAt] at hthere
  have hlt := h.symm.hasIndexed.reachable.wellFormed.stored_lt hthere
  rw [variants, h.right.follows.globals]
  refine (hnoted.noted id hid d hd hglobal).variant _ hthere ?_
  rw [← h.right.follows.arena.isFunction_eq hlt, h.forth.arena.isFunction_eq hpairs.lt]
  exact hfun

theorem variants_ascending (name : String) : (s.variants name).Ascending := by
  rw [variants, h.left.follows.globals]
  exact (indexUnits_unvisited (unvisited_new options) h.index).variants name

/-- The bodiless variants of a name are the same, though in another order. -/
theorem bodiless_perm (name : String) : ∃ l,
    List.Forall₂ (ρ.Pairs σ s.arena) (bodiless s.arena (s.variants name)) l ∧
      l.Perm (bodiless t.arena (t.variants name)) := by
  have hvariants : ((s.variants name).members.map ρ.var).Perm (t.variants name).members := by
    refine List.perm_map_of_renamed (g := σ.var) (h.variants_ascending name).nodup
      (h.symm.variants_ascending name).nodup (fun v hv => ?_) fun w hw => ?_
    · obtain ⟨hpairs, hthere⟩ := h.variant_there hv
      exact ⟨hthere, hpairs.back⟩
    · obtain ⟨hpairs, hhere⟩ := h.symm.variant_there hw
      exact ⟨hhere, hpairs.back⟩
  exact ⟨_, filter_bodiless_pairs h.arena h.forth.wellFormed
    (List.forall₂_map_right_iff.2 (List.forall₂_same.2 fun v hv => (h.variant_there hv).1)),
    hvariants.filter _⟩

/-- The same is declared under a key in both, though in another order. -/
theorem declared_perm (key : FunctionKey) :
    Option.Rel (fun x y => ∃ l, List.Forall₂ (ρ.Pairs σ s.arena) x.members l ∧ l.Perm y.members)
      (s.pairing.declared? key) (t.pairing.declared? key) := by
  cases hset : s.pairing.declared? key with
  | none =>
    cases hset' : t.pairing.declared? key with
    | none => exact .none
    | some set' =>
      obtain ⟨set, hset'', -⟩ := h.back.declared key set' hset'
      cases hset.symm.trans hset''
  | some set =>
    obtain ⟨set', hset', -⟩ := h.forth.declared key set hset
    have hunder : s.pairing.declaredUnder key = set := by
      rw [Pairing.declaredUnder, hset, Option.getD_some]
    have hunder' : t.pairing.declaredUnder key = set' := by
      rw [Pairing.declaredUnder, hset', Option.getD_some]
    rw [hset']
    refine .some ⟨set.members.map ρ.var, List.forall₂_map_right_iff.2 (List.forall₂_same.2
      fun v hv => (h.declared_there (hunder ▸ hv)).1), ?_⟩
    refine List.perm_map_of_renamed (g := σ.var)
      (h.left.reachable.ascendingDeclarations key set hset).nodup
      (h.right.reachable.ascendingDeclarations key set' hset').nodup (fun v hv => ?_) fun w hw => ?_
    · obtain ⟨hpairs, hthere⟩ := h.declared_there (hunder ▸ hv)
      exact ⟨hunder' ▸ hthere, hpairs.back⟩
    · obtain ⟨hpairs, hhere⟩ := h.symm.declared_there (hunder' ▸ hw)
      exact ⟨hunder ▸ hhere, hpairs.back⟩

/-- What repair takes for the declarations of a definition is the same, though in another order. -/
theorem declarations (key : FunctionKey) (hvw : ρ.Pairs σ s.arena v w) : ∃ l,
    List.Forall₂ (ρ.Pairs σ s.arena) (s.declarationsPaired key v) l ∧
      l.Perm (t.declarationsPaired key w) := by
  have hpaired : Option.Rel (fun x y => ∃ l, List.Forall₂ (ρ.Pairs σ s.arena) x.members l ∧
      l.Perm y.members) (s.pairing.paired? key) (t.pairing.paired? key) := by
    rw [Pairing.paired?, Pairing.paired?, h.pairedKey?_eq]
    cases s.pairing.pairedKey? key with
    | none => exact .none
    | some key' => exact h.declared_perm key'
  rw [declarationsPaired, declarationsPaired, h.arena.name_eq hvw]
  generalize s.pairing.paired? key = paired, t.pairing.paired? key = paired' at hpaired
  cases hpaired with
  | some hset => exact hset
  | none =>
    obtain ⟨l, hl, hperm⟩ := h.bodiless_perm ((s.arena[v]?.map Variable.name).getD "")
    exact ⟨_, List.rel_append hl (h.forth.implicits_correspond h.back key), hperm.append_right _⟩

theorem twins : Twins ρ σ s t where
  forth := h.forth
  back := h.back
  definitions := h.definitions
  declarations key _ _ := h.declarations key
  index := h.index_entries
  implicits := h.forth.implicits_entries h.back h.left.reachable h.right.reachable

end TwoOrders

/-- Two runs over the units, each in its order, end with the same summary. -/
theorem exists_twoOrders {f f' : FlowSummary} (hunits : Concordant units)
    (hperm : units.Perm units') (hb : (indexUnits units).Ends (.new options) ⟨⟩ b)
    (hb' : (indexUnits units').Ends (.new options) ⟨⟩ b') (hflow : (flowUnits units).Ends b f s)
    (hflow' : (flowUnits units').Ends b' f' t) (hcalls : CallOne units s)
    (hcalls' : CallOne units' t) :
    f' = f ∧ ∃ ρ σ made made', TwoOrders options units units' ρ σ made made' b b' s t := by
  obtain ⟨_, ρ, hagain, hforth⟩ := exists_flowUnits hunits hperm hb hb' hflow' hcalls'
  obtain ⟨hsame, rfl⟩ := hagain.unique hflow
  obtain ⟨_, σ, hagain', hback⟩ :=
    exists_flowUnits (hunits.perm hperm) hperm.symm hb' hb hflow hcalls
  obtain ⟨-, rfl⟩ := hagain'.unique hflow'
  obtain ⟨made, horigins⟩ := exists_origins hb
  obtain ⟨made', horigins'⟩ := exists_origins hb'
  refine ⟨hsame, ρ, σ, made, made', ?_⟩
  constructor
  case concordant => exact hunits
  case perm => exact hperm
  case index => exact hb
  case index' => exact hb'
  case origins => exact horigins
  case origins' => exact horigins'
  case left => exact afterUnits (hasIndexed_of_ends hb).reachable hflow
  case right => exact afterUnits (hasIndexed_of_ends hb').reachable hflow'
  case forth => exact hforth
  case back => exact hback

end Session

end CheckedPointers
