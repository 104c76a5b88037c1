import CheckedPointers.Proofs.Analysis.Seating
import CheckedPointers.Proofs.Session.Mirroring
import CheckedPointers.Proofs.Session.Progress

/-!
What a function and its parameters denote once their units are indexed. A parameter stands for a
slot of the definition inside a body and for one of the first declaration elsewhere, whichever
redeclaration it belongs to; a function stands for its first declaration. Where there is none, both
are seen through the signature that is made on demand.
-/
namespace CheckedPointers

open Op TranslationUnit

def FunctionVariable.slot (g : FunctionVariable) (i : Nat) : VarSet := g.params[i]?.getD .empty

namespace TranslationUnit

variable {u : TranslationUnit} {f : DeclId} {d : Decl}

/-- The redeclaration through which a function of that name is seen. -/
def facing (u : TranslationUnit) (name : String) : Viewpoint → Option DeclId
  | .body => u.findFunction? name Decl.hasBody
  | .declaration => u.findFunction? name fun d => !d.hasBody

/-- Which redeclaration carries a body depends on the name of the function alone. -/
theorem definitionFor_eq (hd : u.decl f = .ok d) :
    u.definitionFor f = .ok (u.facing d.name .body) := by
  rw [definitionFor, hd]
  rfl

/-- Which one is the prototype does so as well. -/
theorem prototypeOf_eq (hd : u.decl f = .ok d) :
    u.prototypeOf f = .ok (u.facing d.name .declaration) := by
  rw [prototypeOf, hd]
  rfl

theorem isFunction_of_facing {name : String} {view : Viewpoint} {m : DeclId}
    (h : u.facing name view = some m) : ∃ e, u.decl m = .ok e ∧ e.isFunction := by
  cases view <;>
  · obtain ⟨e, he, hfun, -⟩ := findFunction?_spec h
    exact ⟨e, he, hfun⟩

/-- A function is seen from one side at least. -/
theorem exists_facing {name : String} (hd : u.decl f = .ok d) (hfun : d.isFunction)
    (hname : d.name = name) (h : u.facing name .declaration = none) :
    ∃ m, u.facing name .body = some m := by
  subst hname
  have hbody : d.hasBody := by
    by_contra hno
    exact findFunction?_ne_none hd hfun (by simpa using hno) h
  exact Option.ne_none_iff_exists'.1 (findFunction?_ne_none hd hfun hbody)

end TranslationUnit

namespace Session

variable {s t : Session} {u : TranslationUnit} {units : List TranslationUnit} {options : Options}
  {f m p : DeclId} {d e : Decl} {v : VarId} {g : FunctionVariable} {o : OpenUnit}
  {view : Viewpoint} {i : Nat}

/-! ## Signatures made on demand -/

/-- What is remembered as a signature is one function. -/
theorem Reachable.signature {key : FunctionKey} {set : VarSet} (h : Reachable options s)
    (hset : s.implicits.find? key = some set) : ∃ v, set = .singleton v := by
  have hall : ∀ key set, s.implicits.find? key = some set → ∃ v, set = .singleton v := by
    apply h.keeps
      (P := fun s => ∀ key set, s.implicits.find? key = some set → ∃ v, set = .singleton v)
    · exact fun _ _ h => nomatch h
    · intro s t _ hst hall key set hset
      cases hst.step with
      | visits h =>
        cases h with
        | looks h =>
          cases h with
          | builds h =>
            rw [h.only] at hset
            exact hall key set hset
          | @signs key' v =>
            rw [withSignature, OrderedMap.find?_insert] at hset
            split at hset
            · exact ⟨v, (Option.some.inj hset).symm⟩
            · exact hall key set hset
          | derives | bottoms | quotes | guesses => exact hall key set hset
        | records h =>
          rw [h.only] at hset
          exact hall key set hset
        | collects => exact hall key set hset
      | _ => exact hall key set hset
    · exact fun _ hall => hall
  exact hall key set hset

/-- A signature on demand is there whenever a function of the open unit is asked for one. -/
theorem Reachable.implicitPrototype_ends (h : Reachable options s) (ho : ∃ o, IsOpen u o s)
    (hlisted : ∀ f d, u.decl f = .ok d → ∀ p ∈ d.params, p < u.decls.size)
    (hf : u.IsFunction f) :
    ∃ v g t, (implicitPrototype u f).Ends s (.singleton v) t ∧ t.arena.function? v = some g ∧
      t.WellFormed := by
  have hfails : FailsOnly (fun _ => False) (implicitPrototype u f) s :=
    implicitPrototype_failsOnly hlisted ⟨h.wellFormed, ho⟩ hf
  obtain ⟨set, t, hends⟩ := hfails.ends
  obtain ⟨-, ⟨-, key, -, hset⟩, -⟩ := (implicitPrototype_recalls u f h.wellFormed).of_ends hends
  have ht : Reachable options t :=
    h.ended (r := .implicitPrototype u f) (ends_discard.2 ⟨set, hends⟩)
  obtain ⟨v, rfl⟩ := ht.signature hset
  obtain ⟨g, hg⟩ := Arena.isFunction_iff.1 (ht.wellFormed.implicits _
    (OrderedMap.mem_of_find? hset) v ((VarSet.mem_singleton v v).2 rfl))
  exact ⟨v, g, t, hends, hg, ht.wellFormed⟩

/-- The slots of a single function are its own. -/
theorem slotsOf_singleton {n : Nat} {arena : Arena} (h : arena.WellFormed n)
    (hg : arena.function? v = some g) (i : Nat) :
    slotsOf arena i (.singleton v) = g.slot i := by
  have hslots : slotsOf arena i (.singleton v) = .ofList (g.slot i).members := by
    simp [slotsOf, VarSet.singleton, hg, FunctionVariable.slot]
  rw [hslots, FunctionVariable.slot]
  cases hslot : g.params[i]? with
  | none => rfl
  | some slot =>
    rcases h.slots hg (List.mem_cons_of_mem _ (List.mem_of_getElem? hslot)) with rfl | ⟨p, rfl, -⟩
    · rfl
    · rfl

/-- Redeclarations of a function that has a definition share their signature. -/
theorem implicitPrototype_congr {f' : DeclId} (hd : u.decl f = .ok d) (he : u.decl f' = .ok e)
    (hname : e.name = d.name) (hm : u.facing d.name .body = some m) :
    implicitPrototype u f' = implicitPrototype u f := by
  have hdef := definitionFor_eq hd
  have hdef' := definitionFor_eq he
  rw [hname, hm] at hdef'
  rw [hm] at hdef
  have hkey : u.pairingKey f' = u.pairingKey f := by
    rw [pairingKey, pairingKey, hdef, hdef']
    rfl
  simp only [implicitPrototype, hkey, hdef, hdef', lift_ok_bind, Option.getD_some]

/-! ## Denotation -/

/-- The function variable alone stands where the function is declared. -/
def Stores (s : Session) (u : TranslationUnit) (func : DeclId) (v : VarId) (g : FunctionVariable) :
    Prop :=
  ∃ d, u.decl func = .ok d ∧ s.storedAt d.anchor = .singleton v ∧ s.arena.function? v = some g

theorem contains_of_mem_storedAt {a : Anchor} (h : v ∈ s.storedAt a) : s.index.contains a := by
  unfold OrderedMap.contains
  unfold storedAt at h
  cases hfound : s.index.find? a with
  | none =>
    rw [hfound] at h
    exact absurd h (VarSet.not_mem_empty v)
  | some set => rfl

theorem denoteDecl_function (ho : IsOpen u o s) (hd : u.decl f = .ok d) (hfun : d.isFunction)
    (hv : v ∈ s.storedAt d.anchor) : denoteDecl u f view s = denoteFunction u f s := by
  rw [denoteDecl, bind_run, requireOpen_ends ho]
  simp only [hd, lift_run, bind_run, get_run, contains_of_mem_storedAt hv, hfun, if_true,
    Bool.not_true, if_false, Bool.false_eq_true]

theorem denoteDecl_param (ho : IsOpen u o s) (he : u.decl p = .ok e) (hfun : ¬ e.isFunction)
    (hparam : e.isParam) (hv : v ∈ s.storedAt e.anchor)
    (hposition : u.parameterPosition p = .ok (some (f, i))) :
    denoteDecl u p view s = denoteParam u f i view s := by
  rw [denoteDecl, bind_run, requireOpen_ends ho]
  simp only [he, lift_run, bind_run, get_run, contains_of_mem_storedAt hv, hfun, hparam,
    hposition, if_true, Bool.not_true, if_false, Bool.false_eq_true]

theorem storedFor_ends (hd : u.decl f = .ok d) :
    (storedFor u f).Ends s (s.storedAt d.anchor) s := by
  rw [storedFor, hd]
  rfl

section Seats

variable (hs : Reachable options s) (hlisting : Listing units) (hu : u ∈ units)

include hs hlisting hu

/-- Where the function is declared again stands its variable alone. -/
theorem Seated.stored (h : Seated units s (u.siteOf d) v g) (hd : u.decl f = .ok d)
    (hfun : d.isFunction) : s.storedAt d.anchor = .singleton v := by
  refine (hs.ascending d.anchor).ext (VarSet.ascending_singleton v) fun x => ?_
  rw [VarSet.mem_singleton]
  constructor
  · exact h.alone (hlisting.owns_anchor hu hd hfun) x
  · rintro rfl
    exact h.stands

/-- Where the parameters of a function that is seated stand its slots do, and nothing else if the
parameter is undisputed. -/
theorem Seated.storedParam_ends (h : Seated units s (u.siteOf d) v g) (hd : u.decl f = .ok d)
    (i : Nat) : ∃ set, (storedParam u f i).Ends s set s ∧ (∀ x ∈ g.slot i, x ∈ set) ∧
      (Undisputed units u f i → set = g.slot i) := by
  rw [storedParam, hd, lift_ok_bind, FunctionVariable.slot]
  cases hp : d.params[i]? with
  | none =>
    have hlength : g.params.length = d.params.length := by
      rw [h.length, siteOf, paramAnchors, List.length_map]
    have hnone : g.params[i]? = none := by
      rw [List.getElem?_eq_none_iff] at hp ⊢
      rwa [hlength]
    rw [hnone]
    exact ⟨.empty, ends_pure.2 ⟨rfl, rfl⟩, fun _ hx => hx, fun _ => rfl⟩
  | some p =>
    obtain ⟨e, he, -⟩ := hlisting.owned u hu f d hd p (List.mem_of_getElem? hp)
    have ha : (u.paramAnchors d)[i]? = some (some e.anchor) :=
      getElem?_paramAnchors.2 ⟨p, hp, e, he, rfl⟩
    obtain ⟨x, hx, hmem, halone⟩ := h.slots i e.anchor ha
    rw [hx, Option.getD_some]
    refine ⟨_, storedFor_ends he, fun y hy => ?_, fun hundisputed => ?_⟩
    · rwa [(VarSet.mem_singleton x y).1 hy]
    · refine (hs.ascending e.anchor).ext (VarSet.ascending_singleton x) fun y => ?_
      rw [VarSet.mem_singleton]
      constructor
      · exact halone (hlisting.owns_param hu hd ha hundisputed) y
      · rintro rfl
        exact hmem

end Seats

section Redeclarations

variable (hd : u.decl f = .ok d)

include hd

theorem denoteParam_facing (hm : u.facing d.name view = some m) :
    denoteParam u f i view = storedParam u m i := by
  cases view with
  | declaration => rw [denoteParam, prototypeOf_eq hd, hm, lift_ok_bind]
  | body => rw [denoteParam, definitionFor_eq hd, hm, lift_ok_bind]

theorem denoteParam_undefined (h : u.facing d.name .body = none) :
    denoteParam u f i .body s = (.error (.unresolved (.parameter (.undefined d.name))), s) := by
  rw [denoteParam, definitionFor_eq hd, h, lift_ok_bind, hd]
  rfl

theorem denoteParam_onDemand (h : u.facing d.name .declaration = none)
    (hends : (implicitPrototype u f).Ends s (.singleton v) t) (ht : t.WellFormed)
    (hg : t.arena.function? v = some g) :
    (denoteParam u f i .declaration).Ends s (g.slot i) t := by
  rw [denoteParam, prototypeOf_eq hd, h, lift_ok_bind]
  refine ends_bind.2 ⟨.singleton v, t, hends, ends_bind.2 ⟨t, t, ends_get.2 ⟨rfl, rfl⟩, ?_⟩⟩
  exact ends_pure.2 ⟨slotsOf_singleton ht.arena hg i, rfl⟩

theorem denoteFunction_facing (hm : u.facing d.name .declaration = some m) :
    denoteFunction u f = storedFor u m := by
  rw [denoteFunction, prototypeOf_eq hd, hm, lift_ok_bind]

theorem denoteFunction_onDemand (h : u.facing d.name .declaration = none) :
    denoteFunction u f = implicitPrototype u f := by
  rw [denoteFunction, prototypeOf_eq hd, h, lift_ok_bind]

/-- A parameter that its function lists is looked for at its position there. -/
theorem denoteDecl_listed (hlisting : Listing units) (hu : u ∈ units) (ho : IsOpen u o s)
    (hseated : Seated units s (u.siteOf d) v g) (hp : d.params[i]? = some p) :
    denoteDecl u p view s = denoteParam u f i view s := by
  obtain ⟨e, he, howner⟩ := hlisting.owned u hu f d hd p (List.mem_of_getElem? hp)
  have hparam := Decl.isParam_of_owner howner
  obtain ⟨x, -, hx, -⟩ := hseated.slots i e.anchor (getElem?_paramAnchors.2 ⟨p, hp, e, he, rfl⟩)
  exact denoteDecl_param ho he (fun hfun => Decl.not_isParam_of_isFunction hfun hparam) hparam
    hx (hlisting.parameterPosition hu hd hp he howner)

end Redeclarations

/-! ## Selection -/

structure Redeclares (u : TranslationUnit) (name : String) (f : DeclId) (d : Decl) : Prop where
  decl : u.decl f = .ok d
  isFunction : d.isFunction
  name : d.name = name

/-- Every redeclaration of a function denotes what is stored for the first declaration, and every
parameter at a position the slot there of what is stored for the definition, inside a body, and for
the first declaration, elsewhere. If the unit has no such declaration, both are seen through the
signature made on demand, and if it has no definition, parameters are unknown inside a body. -/
structure Selects (units : List TranslationUnit) (u : TranslationUnit) (name : String)
    (s : Session) : Prop where
  parameters : ∀ view m, u.facing name view = some m → ∃ v g, s.Stores u m v g ∧ ∀ i, ∃ set,
    (∀ x ∈ g.slot i, x ∈ set) ∧ (Undisputed units u m i → set = g.slot i) ∧
      ∀ f d, Redeclares u name f d → ∀ p, d.params[i]? = some p →
        (denoteDecl u p view).Ends s set s
  undefined : u.facing name .body = none → ∀ f d, Redeclares u name f d → ∀ p ∈ d.params,
    denoteDecl u p .body s = (.error (.unresolved (.parameter (.undefined name))), s)
  functions : ∀ m, u.facing name .declaration = some m → ∃ v g, s.Stores u m v g ∧
    ∀ f d, Redeclares u name f d → ∀ view, (denoteDecl u f view).Ends s (.singleton v) s
  onDemand : u.facing name .declaration = none → (∃ f d, Redeclares u name f d) →
    ∃ v g t, t.arena.function? v = some g ∧ ∀ f d, Redeclares u name f d →
      (implicitPrototype u f).Ends s (.singleton v) t ∧
        (∀ view, (denoteDecl u f view).Ends s (.singleton v) t) ∧
          ∀ (i : Nat) p, d.params[i]? = some p →
            (denoteDecl u p .declaration).Ends s (g.slot i) t

/-- A session that has indexed units selects the right side of every function of the open one. Where
a parameter of the side that is selected stands, one of another function may stand too, for all that
the units agree on; then the slot is among what is denoted. -/
theorem HasIndexed.selects (h : HasIndexed options units s) (hlisting : Listing units)
    (hu : u ∈ units) (ho : IsOpen u o s) (name : String) : Selects units u name s := by
  have hlisted : ∀ f d, u.decl f = .ok d → ∀ p ∈ d.params, p < u.decls.size := by
    intro f d hd p hp
    obtain ⟨e, he, -⟩ := hlisting.owned u hu f d hd p hp
    exact lt_of_decl he
  have hparam : ∀ f d, Redeclares u name f d → ∀ (i : Nat) p view, d.params[i]? = some p →
      denoteDecl u p view s = denoteParam u f i view s := by
    intro f d hf i p view hp
    obtain ⟨v, g, hseated⟩ := h.seated hlisting hu hf.decl hf.isFunction
    exact denoteDecl_listed hf.decl hlisting hu ho hseated hp
  have hfunction : ∀ f d, Redeclares u name f d → ∀ view,
      denoteDecl u f view s = denoteFunction u f s := by
    intro f d hf view
    obtain ⟨v, g, hseated⟩ := h.seated hlisting hu hf.decl hf.isFunction
    exact denoteDecl_function ho hf.decl hf.isFunction hseated.stands
  constructor
  case parameters =>
    intro view m hm
    obtain ⟨e, he, hfun⟩ := isFunction_of_facing hm
    obtain ⟨v, g, hseated⟩ := h.seated hlisting hu he hfun
    have hstored := hseated.stored h.reachable hlisting hu he hfun
    refine ⟨v, g, ⟨e, he, hstored, hseated.function⟩, fun i => ?_⟩
    obtain ⟨set, hends, hslot, hset⟩ := hseated.storedParam_ends h.reachable hlisting hu he i
    refine ⟨set, hslot, hset, fun f d hf p hp => ?_⟩
    rw [Ends, hparam f d hf i p view hp, denoteParam_facing hf.decl (hf.name ▸ hm)]
    exact hends
  case undefined =>
    intro hnone f d hf p hp
    obtain ⟨i, hp⟩ := List.mem_iff_getElem?.1 hp
    rw [hparam f d hf i p .body hp, denoteParam_undefined hf.decl (hf.name ▸ hnone), hf.name]
  case functions =>
    intro m hm
    obtain ⟨e, he, hfun⟩ := isFunction_of_facing hm
    obtain ⟨v, g, hseated⟩ := h.seated hlisting hu he hfun
    have hstored := hseated.stored h.reachable hlisting hu he hfun
    refine ⟨v, g, ⟨e, he, hstored, hseated.function⟩, fun f d hf view => ?_⟩
    rw [Ends, hfunction f d hf view, denoteFunction_facing hf.decl (hf.name ▸ hm), ← hstored]
    exact storedFor_ends he
  case onDemand =>
    rintro hnone ⟨f₀, d₀, hf₀⟩
    obtain ⟨v, g, t, hends, hg, ht⟩ :=
      h.reachable.implicitPrototype_ends ⟨o, ho⟩ hlisted ⟨d₀, hf₀.decl, hf₀.isFunction⟩
    -- redeclarations share the signature, since one of them has a body
    obtain ⟨m, hm⟩ := exists_facing hf₀.decl hf₀.isFunction hf₀.name hnone
    refine ⟨v, g, t, hg, fun f d hf => ?_⟩
    have hends : (implicitPrototype u f).Ends s (.singleton v) t := by
      rwa [implicitPrototype_congr hf₀.decl hf.decl (hf.name.trans hf₀.name.symm)
        (hf₀.name ▸ hm)]
    refine ⟨hends, fun view => ?_, fun i p hp => ?_⟩
    · rw [Ends, hfunction f d hf view, denoteFunction_onDemand hf.decl (hf.name ▸ hnone)]
      exact hends
    · rw [Ends, hparam f d hf i p .declaration hp]
      exact denoteParam_onDemand hf.decl (hf.name ▸ hnone) hends ht hg

def prototypeUnit : TranslationUnit :=
  let ptr : CType := .pointer .int
  { id := 0
    file := "a.c"
    decls := #[
      ⟨"p", ⟨"f.h", 1, 13⟩, false, .param ptr (some 1) none⟩,
      ⟨"f", ⟨"f.h", 1, 6⟩, false, .function ⟨ptr, [ptr], false, true⟩ [0] true none⟩]
    exprs := #[]
    topLevel := [1] }

/-- The function is declared by the same header and defined, and another one is only defined. -/
def definingUnit : TranslationUnit :=
  let ptr : CType := .pointer .int
  let unary : Signature := ⟨ptr, [ptr], false, true⟩
  { id := 1
    file := "b.c"
    decls := #[
      ⟨"p", ⟨"f.h", 1, 13⟩, false, .param ptr (some 1) none⟩,
      ⟨"f", ⟨"f.h", 1, 6⟩, false, .function unary [0] true none⟩,
      ⟨"q", ⟨"b.c", 3, 13⟩, false, .param ptr (some 3) none⟩,
      ⟨"f", ⟨"b.c", 3, 6⟩, false, .function unary [2] true (some [])⟩,
      ⟨"r", ⟨"b.c", 5, 13⟩, false, .param ptr (some 5) none⟩,
      ⟨"g", ⟨"b.c", 5, 6⟩, false, .function unary [4] true (some [])⟩]
    exprs := #[]
    topLevel := [1, 3, 5] }

theorem listing_definingUnit : Listing [prototypeUnit, definingUnit] := by
  apply Listing.of_decls
  · decide
  · simp only [List.pairwise_cons, List.forall_mem_cons, List.not_mem_nil, false_imp_iff,
      implies_true, and_true, List.Pairwise.nil]
    intro x hx y hy ha
    simp only [prototypeUnit, definingUnit, List.mem_toArray, List.mem_cons, List.not_mem_nil,
      or_false] at hx hy
    rcases hx with rfl | rfl <;> rcases hy with rfl | rfl | rfl | rfl | rfl | rfl <;>
      first | exact ⟨rfl, rfl⟩ | exact absurd ha (by decide)
  · simp only [List.forall_mem_cons, List.not_mem_nil, false_imp_iff, implies_true, and_true]
    exact ⟨⟨[1], by decide +kernel, by decide⟩, ⟨[1, 3, 5], by decide +kernel, by decide⟩⟩

/-- A session that has indexed units and entered one of them. -/
theorem hasIndexed_of_entered
    (h : (indexUnits units >>= fun _ => enter u).Ends (new options) ⟨⟩ s) :
    HasIndexed options units s ∧ IsOpen u ⟨u.id, u.file, [], .empty, .empty⟩ s := by
  obtain ⟨_, s₀, hindexed, hentered⟩ := ends_bind.1 h
  refine ⟨.request (.enter u) Bool.false_ne_true (HasIndexed.new.all hindexed)
    (ends_attempt.2 (.inl ⟨rfl, hentered⟩)), ?_⟩
  rw [((enter_meets u s₀).of_ends hentered).2]
  exact ⟨rfl, rfl, rfl⟩

/-- Both parameters of the first function denote the slot of the definition in a body and that of
the prototype elsewhere, and the function denotes its prototype. The parameter of the other function
denotes a slot of a signature made on demand elsewhere, and that function denotes the signature. -/
theorem HasIndexed.selects_definingUnit :
    ∃ s o, HasIndexed .default [prototypeUnit, definingUnit] s ∧
      Listing [prototypeUnit, definingUnit] ∧ IsOpen definingUnit o s ∧
      Selects [prototypeUnit, definingUnit] definingUnit "f" s ∧
      Selects [prototypeUnit, definingUnit] definingUnit "g" s ∧
      (∀ m ∈ [1, 3], Undisputed [prototypeUnit, definingUnit] definingUnit m 0) ∧
      ([0, 2, 3, 4, 5].map fun d =>
        (Prod.map (Option.map VarSet.members) (Option.map VarSet.members)
          ((denoteDecl definingUnit d .body s).1.toOption,
            (denoteDecl definingUnit d .declaration s).1.toOption))) =
        [(some [4], some [1]), (some [4], some [1]), (some [2], some [2]), (some [7], some [10]),
          (some [11], some [11])] := by
  obtain ⟨_, s, hends, hlook⟩ := exists_ends
    (x := indexUnits [prototypeUnit, definingUnit] >>= fun _ => enter definingUnit)
    (s := .new .default)
    (g := fun _ s => [0, 2, 3, 4, 5].map fun d =>
      (Prod.map (Option.map VarSet.members) (Option.map VarSet.members)
        ((denoteDecl definingUnit d .body s).1.toOption,
          (denoteDecl definingUnit d .declaration s).1.toOption)))
    (b := [(some [4], some [1]), (some [4], some [1]), (some [2], some [2]), (some [7], some [10]),
      (some [11], some [11])]) (by decide +kernel)
  obtain ⟨hindexed, ho⟩ := hasIndexed_of_entered hends
  have hu : definingUnit ∈ [prototypeUnit, definingUnit] := by simp
  refine ⟨s, _, hindexed, listing_definingUnit, ho,
    hindexed.selects listing_definingUnit hu ho "f",
    hindexed.selects listing_definingUnit hu ho "g", ?_, hlook⟩
  simp only [List.forall_mem_cons, List.not_mem_nil, false_imp_iff, implies_true, and_true]
  constructor <;>
  · rintro d ⟨⟩ a ha
    obtain rfl := Option.some.inj (Option.some.inj ha)
    decide

/-- A function of that name in a header that declares one function or another, as a condition has
it, with the parameter where both have it. -/
def conditionalUnit (id : Nat) (file name : String) (line : Nat) : TranslationUnit :=
  { id := id
    file := file
    decls := #[
      ⟨"p", ⟨"h.h", 6, 8⟩, false, .param (.pointer .int) (some 1) none⟩,
      ⟨name, ⟨"h.h", line, 6⟩, false, .function ⟨.builtin "void", [.pointer .int], false, true⟩ [0]
        true none⟩]
    exprs := #[]
    topLevel := [1] }

theorem listing_conditionalUnit :
    Listing [conditionalUnit 0 "a.c" "f" 2, conditionalUnit 1 "b.c" "g" 4] := by
  apply Listing.of_decls
  · decide
  · simp only [List.pairwise_cons, List.forall_mem_cons, List.not_mem_nil, false_imp_iff,
      implies_true, and_true, List.Pairwise.nil]
    intro x hx y hy ha
    simp only [conditionalUnit, List.mem_toArray, List.mem_cons, List.not_mem_nil, or_false]
      at hx hy
    rcases hx with rfl | rfl <;> rcases hy with rfl | rfl <;>
      first | exact ⟨rfl, rfl⟩ | exact absurd ha (by decide)
  · simp only [List.forall_mem_cons, List.not_mem_nil, false_imp_iff, implies_true, and_true]
    exact ⟨⟨[1], by decide +kernel, by decide⟩, ⟨[1], by decide +kernel, by decide⟩⟩

/-- The parameters of the two functions stand at one anchor, so that each denotes the slots of
both. -/
theorem denoteDecl_conditionalUnit :
    ∃ units u s o m d v g set t, Listing units ∧ HasIndexed .default units s ∧ u ∈ units ∧
      IsOpen u o s ∧ u.facing "f" .declaration = some m ∧ Redeclares u "f" m d ∧
      d.params[0]? = some 0 ∧ s.Stores u m v g ∧ (denoteDecl u 0 .declaration).Ends s set t ∧
      set ≠ g.slot 0 := by
  obtain ⟨_, s, hends, hlook⟩ := exists_ends
    (x := indexUnits [conditionalUnit 0 "a.c" "f" 2, conditionalUnit 1 "b.c" "g" 4] >>= fun _ =>
      enter (conditionalUnit 0 "a.c" "f" 2)) (s := .new .default)
    (g := fun _ s => (s.storedAt ⟨"h.h", 2, 6⟩, (s.arena.function? 2).map (·.params),
      (denoteDecl (conditionalUnit 0 "a.c" "f" 2) 0 .declaration s).1.toOption))
    (b := (.singleton 2, some [.singleton 1], some ⟨[1, 4]⟩)) (by decide +kernel)
  obtain ⟨hstored, hlook⟩ := Prod.mk.inj hlook
  obtain ⟨hparams, hanswer⟩ := Prod.mk.inj hlook
  obtain ⟨g, hg, hparams⟩ := Option.map_eq_some_iff.1 hparams
  obtain ⟨t, hanswer⟩ := exists_ends_of_run hanswer
  obtain ⟨hindexed, ho⟩ := hasIndexed_of_entered hends
  refine ⟨_, conditionalUnit 0 "a.c" "f" 2, s, _, 1, _, 2, g, _, t, listing_conditionalUnit,
    hindexed, by simp, ho, by decide +kernel, ⟨rfl, rfl, rfl⟩, rfl, ⟨_, rfl, hstored, hg⟩, hanswer,
    ?_⟩
  rw [FunctionVariable.slot, hparams]
  decide

end Session

end CheckedPointers
