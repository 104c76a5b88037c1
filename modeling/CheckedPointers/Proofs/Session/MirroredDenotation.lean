import CheckedPointers.Proofs.Session.Faithful
import CheckedPointers.Proofs.Session.MirroredCreation
import CheckedPointers.Proofs.Session.Progress

/-!
What is denoted in a second run is what the first run denotes. Where the second has nothing to
remember yet it makes what the first had made, perhaps for another expression.
-/
namespace CheckedPointers

open Op

namespace Session

variable {s s' t t₀ t₁ : Session} {ρ ρ' : Renaming} {u : TranslationUnit}
  {known : FunctionKey → Prop}

/-- No call without a named callee may be of one signature or another. -/
def CallsOne (u : TranslationUnit) (t : Session) : Prop :=
  ∀ call callee args view set, u.expr call = .ok (.call callee args) →
    u.namedCallee call = .ok none → (denote u callee view).Ends t set t →
    ∀ f ∈ t.arena.signatures set, ∀ g ∈ t.arena.signatures set, f = g

/-- The unit is open, what is remembered of it is right, and it is known what it calls. -/
structure Visited (u : TranslationUnit) (known : FunctionKey → Prop) (t : Session) : Prop
    extends Faithful u known t where
  isOpen : ∃ o, IsOpen u o t
  keys : u.KeysTellNames
  callsOne : CallsOne u t

def Knows (u : TranslationUnit) (known : FunctionKey → Prop) (s : Session) : Prop :=
  ∀ key func maker, known key → u.Asks func key maker → ∃ set, s.implicits.find? key = some set

theorem Knows.later (h : s.Knows u known) (hl : Later ρ ρ' s s') : s'.Knows u known := by
  intro key func maker hkey hasks
  obtain ⟨set, hset⟩ := h key func maker hkey hasks
  exact ⟨set, hl.implicits key set hset⟩

/-- The variables are there, and the first set has just what they are elsewhere. -/
abbrev SameVars (set' set : VarSet) (ρ : Renaming) (s : Session) : Prop :=
  Holds set s ∧ set.Images ρ set'

theorem SameVars.later {set set' : VarSet} (h : SameVars set' set ρ s) (hl : Later ρ ρ' s s') :
    SameVars set' set ρ' s' := ⟨h.1.grows hl.arena, h.2.congr hl.agrees h.1⟩

theorem SameVars.union {x x' y y' : VarSet} (h : SameVars x' x ρ s) (h' : SameVars y' y ρ s) :
    SameVars (x'.union y') (x.union y) ρ s := ⟨h.1.union h'.1, h.2.union h'.2⟩

theorem Embeds.exists_isOpen (h : s.Embeds ρ t) (ht : t.Visited u known) : ∃ o, IsOpen u o s := by
  obtain ⟨o', ho'⟩ := ht.isOpen
  obtain ⟨o, ho, -⟩ := h.isOpen ho'
  exact ⟨o, ho⟩

/-! ## What is made once -/

section

variable (ht : t.Visited u known) (h : s.Embeds ρ t)

include ht h

/-- A signature that is on record there can be made here. -/
theorem implicitPrototype_fits (hk : s.Knows u known) {func : DeclId} {key : FunctionKey}
    {set : VarSet} (hfunc : u.IsFunction func) (hproto : u.prototypeOf func = .ok none)
    (hkey : u.pairingKey func = .ok key) (hset : t.implicits.find? key = some set) :
    Fits t (implicitPrototype u func) ρ s fun own ρ' s' =>
      ∃ v, own = .singleton v ∧ set = .singleton (ρ'.var v) ∧ v < s'.arena.size := by
  obtain ⟨o, ho⟩ := h.exists_isOpen ht
  refine Fits.bind_requireOpen ho (Fits.bind_lift hkey (Fits.bind_get ?_))
  cases hfound : s.implicits.find? key with
  | some own =>
    obtain ⟨v, rfl, hv⟩ := h.implicits key own hfound
    obtain rfl := Option.some.inj (hset.symm.trans hv)
    have hfun := h.wellFormed.implicits _ (OrderedMap.mem_of_find? hfound) v
      ((VarSet.mem_singleton v v).2 rfl)
    exact Fits.pure h ⟨v, rfl, rfl, Arena.lt_of_isFunction hfun⟩
  | none =>
    obtain ⟨def?, hdef, hown⟩ := TranslationUnit.asks_of_pairingKey hfunc hproto hkey
    have hnew : ¬ known key := by
      intro hknown
      obtain ⟨made, hmade⟩ := hk key _ _ hknown hown
      rw [hfound] at hmade
      cases hmade
    obtain ⟨f, maker, w, r, r', rfl, hasks, hends, hrt, hdeclared⟩ :=
      (ht.implicits _ (OrderedMap.mem_of_find? hset)).resolve_left hnew
    obtain rfl := hasks.unique ht.keys hown
    refine Fits.bind_lift hdef (Fits.bind (((newFunction_mirrors u _ h).of_ends hends hrt).meets
      (newFunction_meets u _ s)) fun v ρ₁ s₁ he _ ⟨⟨hw, hv⟩, hst, _⟩ => ?_)
    have hst : s.Creates s₁ := hst
    have hfree : s₁.implicits.find? key = none := by rw [hst.only]; exact hfound
    have hdeclares := he.declare hv (hw ▸ hdeclared)
    have hadds := hdeclares.addImplicit hv hfree (hw ▸ hset)
    refine Fits.bind_modify (declare_meets hv) hdeclares ?_
    exact Fits.bind_modify (addImplicit_meets hv hfree) hadds
      (Fits.pure hadds ⟨v, rfl, by rw [hw], Arena.lt_of_isFunction hv⟩)

/-- Where something lies below a variable there, it lies below or is made here. -/
theorem dereferenceOne_fits {v : VarId} {below : Option VarId} (hv : v < s.arena.size)
    (hbelow : t.pointees.find? (ρ.var v) = some below) :
    Fits t (dereferenceOne v) ρ s fun own ρ' s' =>
      below = own.map ρ'.var ∧ ∀ d, own = some d → d < s'.arena.size := by
  apply Fits.bind_get
  cases hfound : s.pointees.find? v with
  | some own =>
    have hmem := OrderedMap.mem_of_find? hfound
    refine Fits.pure h ⟨?_, fun d hd => Arena.lt_of_isPointer (h.wellFormed.pointees _ hmem d hd)⟩
    exact Option.some.inj (hbelow.symm.trans (h.pointees v own hfound).2)
  | none =>
    have hkeep {own : Option VarId} {ρ₁ : Renaming} {s₁ : Session} (he : s₁.Embeds ρ₁ t)
        (hl : Later ρ ρ₁ s s₁) (hst : s.Creates s₁) (hown : below = own.map ρ₁.var)
        (hptr : ∀ d, own = some d → s₁.arena.isPointer d) : Fits t (do
          modify fun s => { s with pointees := s.pointees.insert v own }
          return own) ρ₁ s₁ fun own ρ' s' =>
            below = own.map ρ'.var ∧ ∀ d, own = some d → d < s'.arena.size := by
      have hfree : s₁.pointees.find? v = none := by rw [hst.only]; exact hfound
      have hv₁ : v < s₁.arena.size := Nat.lt_of_lt_of_le hv hl.arena.size_le
      have hnow := he.lookBelow hv₁ hptr hfree (by rw [hl.agrees.var v hv, ← hown]; exact hbelow)
      exact Fits.bind_modify (addPointee_meets hptr hfree) hnow
        (Fits.pure hnow ⟨hown, fun d hd => Arena.lt_of_isPointer (hptr d hd)⟩)
    have hmem := OrderedMap.mem_of_find? hbelow
    have hlies := (ht.pointees _ hmem).2
    have hptr := ht.wellFormed.pointees _ hmem
    dsimp only at hlies hptr
    rw [h.arena.pointer?_eq hv] at hlies
    apply Fits.bind_get
    cases hp : s.arena.pointer? v with
    | none =>
      rw [hp] at hlies
      cases below with
      | none => exact hkeep h (.refl ρ s) (.refl s) rfl (by intro d hd; cases hd)
      | some d =>
        obtain ⟨q, hq⟩ := Arena.isPointer_iff.1 (hptr d rfl)
        rw [Option.bind_some, hq] at hlies
        cases hlies
    | some p =>
      rw [hp, Option.map_some, Option.bind_some, PointerVariable.dereferenced?_rename] at hlies
      rw [Option.bind_some]
      cases hq : p.dereferenced? with
      | none =>
        rw [hq] at hlies
        cases below with
        | none => exact hkeep h (.refl ρ s) (.refl s) rfl (by intro d hd; cases hd)
        | some d =>
          obtain ⟨q, hq⟩ := Arena.isPointer_iff.1 (hptr d rfl)
          rw [Option.bind_some, hq] at hlies
          cases hlies
      | some q =>
        rw [hq] at hlies
        obtain ⟨d, rfl, hd⟩ := Option.bind_eq_some_iff.1 hlies
        have hadmits := h.wellFormed.arena.admits_dereferenced hp hq
        have hnew := allocate_fits h hadmits (Arena.getElem?_of_pointer? hd)
        refine Fits.bind (Fits.map (K := fun own ρ' s' => s.Creates s' ∧ some d = own.map ρ'.var ∧
            ∀ v, own = some v → s'.arena.isPointer v)
          ((hnew.meets (allocate_meets hadmits)).mono fun v ρ₁ s₁ _ _ hmade =>
            ⟨hmade.2.1, congrArg some hmade.1.1, ?_⟩)) fun own ρ₁ s₁ he hl hmade =>
          hkeep he hl hmade.1 hmade.2.1 hmade.2.2
        rintro _ ⟨⟩
        exact Arena.isPointer_iff.2 ⟨q, Arena.pointer?_of_getElem? hmade.1.2⟩

/-- Dereferencing in any order gives the same variables. -/
theorem dereferenceAll_fits {vs : List VarId} (hvs : ∀ v ∈ vs, v < s.arena.size)
    (hbelow : ∀ v ∈ vs, ∃ below, t.pointees.find? (ρ.var v) = some below) :
    Fits t (dereferenceAll vs) ρ s fun own ρ' s' => Holds own s' ∧
      ∀ w, (∃ d ∈ own, ρ'.var d = w) ↔ ∃ v ∈ vs, t.pointees.find? (ρ.var v) = some (some w) := by
  induction vs generalizing ρ s with
  | nil => exact Fits.pure h ⟨.empty s, by simp⟩
  | cons v rest ih =>
    obtain ⟨hv, hrest⟩ := List.forall_mem_cons.1 hvs
    obtain ⟨⟨below, hfirst⟩, hothers⟩ := List.forall_mem_cons.1 hbelow
    refine Fits.bind (dereferenceOne_fits ht h hv hfirst) fun own ρ₁ s₁ he hl hone => ?_
    obtain ⟨hown, hlt⟩ := hone
    have hsame : ∀ w ∈ rest, ρ₁.var w = ρ.var w := fun w hw => hl.agrees.var w (hrest w hw)
    refine Fits.bind (ih he (fun w hw => Nat.lt_of_lt_of_le (hrest w hw) hl.arena.size_le)
      fun w hw => hsame w hw ▸ hothers w hw) fun others ρ₂ s₂ he₂ hl₂ hfits => ?_
    obtain ⟨hholds, himages⟩ := hfits
    have hall (w : VarId) : (∃ x ∈ v :: rest, t.pointees.find? (ρ.var x) = some (some w)) ↔
        own.map ρ₁.var = some w ∨ ∃ x ∈ others, ρ₂.var x = w := by
      rw [himages w]
      simp only [List.mem_cons, exists_eq_or_imp, hfirst, hown, Option.some.injEq]
      refine or_congr_right (exists_congr fun x => and_congr_right fun hx => ?_)
      rw [hsame x hx]
    refine Fits.pure he₂ ?_
    cases own with
    | none => exact ⟨hholds, fun w => by simpa using (hall w).symm⟩
    | some d =>
      have hd := hlt d rfl
      have hvar : ρ₂.var d = ρ₁.var d := hl₂.agrees.var d hd
      refine ⟨fun x hx => ?_, fun w => ?_⟩
      · rcases (VarSet.mem_insert others d x).1 hx with rfl | hx
        · exact Nat.lt_of_lt_of_le hd hl₂.arena.size_le
        · exact hholds x hx
      · rw [hall w]
        simp only [VarSet.mem_insert, or_and_right, exists_or, exists_eq_left, hvar,
          Option.map_some, Option.some.injEq]

/-- A literal that has its variable there gets one here. -/
theorem literalVariable_fits {e : ExprId} {value : String} {v : VarId} {o' : OpenUnit}
    (he : u.expr e = .ok (.stringLiteral value)) (ho' : IsOpen u o' t)
    (hmade : o'.literals.find? e = some v) :
    Fits t (literalVariable u e value) ρ s fun own ρ' s' =>
      v = ρ'.var own ∧ own < s'.arena.size := by
  obtain ⟨o, ho, hopened⟩ := h.isOpen ho'
  apply Fits.bind_current ho
  cases hfound : o.literals.find? e with
  | some own =>
    have hptr := h.wellFormed.literals o ho.1 _ (OrderedMap.mem_of_find? hfound)
    refine Fits.pure h ⟨?_, Arena.lt_of_isPointer hptr⟩
    exact Option.some.inj (hmade.symm.trans (hopened.literals e own hfound))
  | none =>
    obtain ⟨a', value', he', hv', hsaid⟩ := ht.literals o' ho'.1 _ (OrderedMap.mem_of_find? hmade)
    obtain rfl : value' = value := by
      cases Except.ok.inj (he.symm.trans he')
      rfl
    refine Fits.bind ((freshAtom_fits h a').meets (freshAtom_meets s))
      fun a ρ₁ s₁ he₁ hl₁ hnew => ?_
    obtain ⟨⟨ha', ha⟩, hst₁, -⟩ := hnew
    have hsaid : t.solver.Says ((Constraint.atLeast a .ntArr).rename ρ₁) := by
      rw [Constraint.rename, ← ha']
      exact hsaid
    refine Fits.bind (addConstraint_notes (c := .atLeast a .ntArr) he₁ ha hsaid).discard
      fun _ ρ₂ s₂ he₂ hl₂ hnoted => ?_
    obtain ⟨rfl, hst₂⟩ := hnoted
    have hadmits : s₂.arena.Admits s₂.solver.cells.size
        (.pointer ⟨[a], "const char", value', none, false, none⟩) := by
      constructor
      · intro f hf
        cases hf
      · intro b hb
        rw [List.mem_singleton.1 hb, hst₂.size]
        exact ha
    have hlook : t.arena[v]? = some ((Variable.pointer
        ⟨[a], "const char", value', none, false, none⟩).rename ρ₂) := by
      rw [Arena.getElem?_of_pointer? hv', ha']
      rfl
    refine Fits.bind ((allocate_fits he₂ hadmits hlook).meets (allocate_meets hadmits))
      fun own ρ₃ s₃ he₃ hl₃ hnew => ?_
    obtain ⟨⟨hv, hown⟩, hst₃, -⟩ := hnew
    have hst : s.Creates s₃ := (hst₁.trans hst₂.creates).trans hst₃
    have ho₃ : IsOpen u o s₃ := ⟨by rw [hst.only]; exact ho.1, ho.2⟩
    have hptr := Arena.isPointer_iff.2 ⟨_, Arena.pointer?_of_getElem? hown⟩
    apply Fits.bind_current ho₃
    obtain ⟨o₁, ho₁, hopened⟩ := he₃.opened o' ho'.1
    obtain rfl := Option.some.inj (ho₃.1.symm.trans ho₁)
    have hset : Meets .visits (setOpen { o with literals := o.literals.insert e own }) s₃
        fun _ _ => True := by
      refine Meets.any (setOpen_meets ho₃.1 ⟨rfl, rfl,
        fun _ _ => OrderedMap.find?_insert_of_free hfound, fun _ _ => id⟩ (fun x hx => ?_)
        fun _ => .inl)
      refine (OrderedMap.mem_insert hx).symm.imp_right ?_
      rintro rfl
      exact hptr
    have hnow := he₃.reopen hset.1.wellFormed ho'.1
      (hopened.addLiteral (hv ▸ hmade))
    exact Fits.bind_modify hset hnow (Fits.pure hnow ⟨hv, Arena.lt_of_isPointer hptr⟩)

/-- A call of an unknown target that has its signature there gets one here. -/
theorem unknownCallee_fits {call : ExprId} {v : VarId} {o' : OpenUnit} (ho' : IsOpen u o' t)
    (hmade : o'.unknownCallees.find? call = some v) :
    Fits t (unknownCallee u call) ρ s fun own ρ' s' => v = ρ'.var own ∧ own < s'.arena.size := by
  obtain ⟨o, ho, hopened⟩ := h.isOpen ho'
  apply Fits.bind_current ho
  cases hfound : o.unknownCallees.find? call with
  | some own =>
    have hfun := h.wellFormed.unknownCallees o ho.1 _ (OrderedMap.mem_of_find? hfound)
    refine Fits.pure h ⟨?_, Arena.lt_of_isFunction hfun⟩
    exact Option.some.inj (hmade.symm.trans (hopened.unknownCallees call own hfound))
  | none =>
    have hadmits : s.arena.Admits s.solver.cells.size (.function .unknown) :=
      fun slot hslot => .inl (List.mem_singleton.1 hslot)
    have hlook := Arena.getElem?_of_function?
      (ht.unknownCallees o' ho'.1 _ (OrderedMap.mem_of_find? hmade))
    refine Fits.bind ((allocate_fits h hadmits hlook).meets (allocate_meets hadmits))
      fun own ρ₁ s₁ he _ ⟨⟨hv, hown⟩, hst, _⟩ => ?_
    have hst : s.Creates s₁ := hst
    have ho₁ : IsOpen u o s₁ := ⟨by rw [hst.only]; exact ho.1, ho.2⟩
    have hfun := Arena.isFunction_iff.2 ⟨_, Arena.function?_of_getElem? hown⟩
    apply Fits.bind_current ho₁
    obtain ⟨o₂, ho₂, hopened⟩ := he.opened o' ho'.1
    obtain rfl := Option.some.inj (ho₁.1.symm.trans ho₂)
    have hset : Meets .visits (setOpen { o with
        unknownCallees := o.unknownCallees.insert call own }) s₁ fun _ _ => True := by
      refine Meets.any (setOpen_meets ho₁.1 ⟨rfl, rfl, fun _ _ => id,
        fun _ _ => OrderedMap.find?_insert_of_free hfound⟩ (fun _ => .inl) fun x hx => ?_)
      refine (OrderedMap.mem_insert hx).symm.imp_right ?_
      rintro rfl
      exact hfun
    have hnow := he.reopen hset.1.wellFormed ho'.1 (hopened.addUnknownCallee (hv ▸ hmade))
    exact Fits.bind_modify hset hnow (Fits.pure hnow ⟨hv, Arena.lt_of_isFunction hfun⟩)

end

/-! ## Declarations -/

theorem implicitPrototype_persists (u : TranslationUnit) (func : DeclId) :
    Persists (implicitPrototype u func) := by
  apply Persists.bind_requireOpen
  apply Persists.bind_lift
  intro key _
  apply Persists.bind_get
  intro s
  split
  · exact .pure
  · apply Persists.bind_lift
    intro o _
    apply (newFunction_persists u _).bind
    exact fun v => Persists.bind_modify (Persists.bind_modify .pure)

theorem stored_tracks (ht₀ : t₀.WellFormed) (h : s.Embeds ρ t)
    (hkept : (keepsFaithful u known).rel t₀ t) (anchor : Anchor) :
    Tracks ρ s t (s.storedAt anchor) (t₀.storedAt anchor) := by
  have hstored : t₀.storedAt anchor = t.storedAt anchor := by
    rw [storedAt, storedAt, (hkept ht₀).1.index]
  rw [hstored]
  exact h.stored anchor

theorem storedFor_mirrors (ht₀ : t₀.WellFormed) (h : s.Embeds ρ t) (d : DeclId) :
    Mirrors (keepsFaithful u known) t (storedFor u d) t₀ (storedFor u d) ρ s
      fun set own ρ' s' => Tracks ρ' s' t own set := by
  apply Mirrors.bind_get
  apply Mirrors.bind_lift
  exact fun p _ hkept => Fits.pure h (stored_tracks ht₀ h hkept p.anchor)

theorem storedParam_mirrors (ht₀ : t₀.WellFormed) (h : s.Embeds ρ t) (func : DeclId) (i : Nat) :
    Mirrors (keepsFaithful u known) t (storedParam u func i) t₀ (storedParam u func i) ρ s
      fun set own ρ' s' => Tracks ρ' s' t own set := by
  apply Mirrors.bind_lift
  intro d _
  split
  · exact storedFor_mirrors ht₀ h _
  · exact Mirrors.pure h (.empty ρ s t)

/-- The slots of one signature are tracked where it stands. -/
theorem slotsOf_tracks (h : s.Embeds ρ t) {v : VarId} (hv : v < s.arena.size) (i : Nat) :
    Tracks ρ s t (slotsOf s.arena i (.singleton v)) (slotsOf t.arena i (.singleton (ρ.var v))) := by
  have hfunction := h.arena.function?_eq hv
  have hslots (arena : Arena) (w : VarId) : slotsOf arena i (.singleton w) =
      .ofList (((arena.function? w).bind fun f => f.params[i]?).getD .empty).members := by
    simp [slotsOf, VarSet.singleton]
  rw [hslots, hslots, hfunction]
  cases hf : s.arena.function? v with
  | none => exact .empty ρ s t
  | some f =>
    simp only [Option.map_some, Option.bind_some, FunctionVariable.rename, List.getElem?_map]
    cases hslot : f.params[i]? with
    | none => exact .empty ρ s t
    | some slot =>
      have hmem : slot ∈ f.slots := List.mem_cons_of_mem _ (List.mem_of_getElem? hslot)
      rcases h.wellFormed.arena.slots hf hmem with rfl | ⟨p, rfl, -, hp⟩
      · exact .empty ρ s t
      · exact .singleton h.wellFormed h.arena (Arena.lt_of_isPointer hp)

section

variable (ht : t.Visited u known) (ht₀ : t₀.WellFormed) (h : s.Embeds ρ t) (hk : s.Knows u known)

include ht ht₀ h hk

theorem implicitPrototype_mirrors {func : DeclId} (hfunc : u.IsFunction func)
    (hproto : u.prototypeOf func = .ok none) :
    Mirrors (keepsFaithful u known) t (implicitPrototype u func) t₀ (implicitPrototype u func) ρ s
      fun set own ρ' s' =>
        ∃ v, own = .singleton v ∧ set = .singleton (ρ'.var v) ∧ v < s'.arena.size := by
  refine Mirrors.of_fits (implicitPrototype_persists u func t₀) fun set t₁ hends ht₁ => ?_
  obtain ⟨hst, ⟨_, key, hkey, hset⟩, _⟩ := (implicitPrototype_recalls u func ht₀).of_ends hends
  have hst : t₀.Visits t₁ := hst
  have hkept := (ht₁ (hst.wellFormed ht₀)).1
  exact implicitPrototype_fits ht h hk hfunc hproto hkey (hkept.implicits key _ hset)

/-- A function denotes the same signatures on both sides, up to names. -/
theorem denoteFunction_mirrors {func : DeclId} (hfunc : u.IsFunction func) :
    Mirrors (keepsFaithful u known) t (denoteFunction u func) t₀ (denoteFunction u func) ρ s
      fun set own ρ' s' => Tracks ρ' s' t own set := by
  apply Mirrors.bind_lift
  intro declaration hdeclaration
  split
  · exact storedFor_mirrors ht₀ h _
  · refine (implicitPrototype_mirrors ht ht₀ h hk hfunc hdeclaration).mono fun _ _ _ s' he _ => ?_
    rintro ⟨v, rfl, rfl, hv⟩
    exact .singleton he.wellFormed he.arena hv

/-- A parameter denotes here what it denotes there, up to names. -/
theorem denoteParam_mirrors {owner : DeclId} (howner : u.IsFunction owner) (i : Nat)
    (view : Viewpoint) :
    Mirrors (keepsFaithful u known) t (denoteParam u owner i view) t₀ (denoteParam u owner i view)
      ρ s fun set own ρ' s' => Tracks ρ' s' t own set := by
  cases view with
  | body =>
    apply Mirrors.bind_lift
    intro definition _
    split
    · exact storedParam_mirrors ht₀ h _ i
    · exact Mirrors.bind_lift fun _ _ => Mirrors.unresolved h
  | declaration =>
    apply Mirrors.bind_lift
    intro declaration hdeclaration
    split
    · exact storedParam_mirrors ht₀ h _ i
    · have hR := keepsFaithful_admitsDenoting u known
      refine Mirrors.bind (hR.implicit owner ht₀ howner hdeclaration)
        (implicitPrototype_mirrors ht ht₀ h hk howner hdeclaration)
        (fun _ _ _ _ => Meets.bind_get (.pure trivial)) ?_
      intro functions t₁ own ρ₁ s₁ hst ⟨hholds, _⟩ ht₁ he _ ⟨v, hown, hset, hv⟩
      have hsame := slotsOf_eq hholds (ht₁ ((hst ht₀).1.wellFormed ht₀)).1.toExtends i
      refine Mirrors.bind_get (Mirrors.pure he ?_)
      rw [← hsame, hset, hown]
      exact slotsOf_tracks he hv i

/-- A declaration denotes here what it denotes there, up to names. -/
theorem denoteDecl_mirrors (id : DeclId) (view : Viewpoint) :
    Mirrors (keepsFaithful u known) t (denoteDecl u id view) t₀ (denoteDecl u id view) ρ s
      fun set own ρ' s' => Tracks ρ' s' t own set := by
  have hR := keepsFaithful_admitsDenoting u known
  refine Mirrors.of_rel (denoteDecl_recalls_of hR id view ht₀) fun hkept => ?_
  apply Mirrors.bind_requireOpen (h.exists_isOpen ht)
  apply Mirrors.bind_lift
  intro d hd
  apply Mirrors.bind_get
  have hindex : t₀.index.contains d.anchor = s.index.contains d.anchor := by
    rw [← h.index, (hkept ht₀).1.index]
  rw [hindex]
  split
  · exact Mirrors.pure h (.empty ρ s t)
  · split
    · next hfun => exact denoteFunction_mirrors ht ht₀ h hk ⟨d, hd, hfun⟩
    · split
      · obtain ⟨o, ho, howner⟩ := TranslationUnit.parameterPosition_gives
          (TranslationUnit.lt_of_decl hd)
        rw [ho]
        rcases o with _ | ⟨owner, i⟩
        · exact Mirrors.unresolved h
        · exact denoteParam_mirrors ht ht₀ h hk (howner owner i rfl) i view
      · exact Mirrors.bind_get (Mirrors.pure h (stored_tracks ht₀ h hkept d.anchor))

/-! ## Expressions -/

omit hk in
/-- One dereference below what is the same here and there, it is the same again. -/
theorem dereference_mirrors {set set' : VarSet} (hset : SameVars set' set ρ s) :
    Mirrors (keepsFaithful u known) t (dereference set') t₀ (dereference set) ρ s SameVars := by
  refine Mirrors.of_fits (dereferenceAll_failsOnly _) fun below t₁ hends ht₁ => ?_
  obtain ⟨hst, hall, hmem⟩ := (dereferenceAll_found _ ht₀).of_ends hends
  have hst : t₀.Visits t₁ := hst
  have hkept := (ht₁ (hst.wellFormed ht₀)).1.pointees
  have himage {v' : VarId} (hv' : v' ∈ set') : ∃ v ∈ set, ρ.var v = v' := (hset.2 v').1 hv'
  have hown {v : VarId} (hv : v ∈ set) : ∃ below, t.pointees.find? (ρ.var v) = some below := by
    obtain ⟨below, hbelow⟩ := hall _ ((hset.2 _).2 ⟨v, hv, rfl⟩)
    exact ⟨below, hkept _ _ hbelow⟩
  refine (dereferenceAll_fits ht h hset.1 fun v => hown).mono fun own ρ' s' _ _ hfits =>
    ⟨hfits.1, fun w => ?_⟩
  rw [hfits.2 w, hmem w]
  constructor
  · rintro ⟨v', hv', hbelow⟩
    obtain ⟨v, hv, rfl⟩ := himage hv'
    exact ⟨v, hv, hkept _ _ hbelow⟩
  · rintro ⟨v, hv, hbelow⟩
    have hv' : ρ.var v ∈ set' := (hset.2 _).2 ⟨v, hv, rfl⟩
    obtain ⟨below, hfound⟩ := hall _ hv'
    obtain rfl := Option.some.inj ((hkept _ _ hfound).symm.trans hbelow)
    exact ⟨_, hv', hfound⟩

omit hk in
theorem literalVariable_mirrors {e : ExprId} {value : String}
    (he : u.expr e = .ok (.stringLiteral value)) :
    Mirrors (keepsFaithful u known) t (literalVariable u e value) t₀ (literalVariable u e value) ρ s
      fun v own ρ' s' => v = ρ'.var own ∧ own < s'.arena.size := by
  have hpersists : Persists (literalVariable u e value) := by
    apply Persists.bind_current
    intro o
    split
    · exact .pure
    · apply Persists.bind fun _ => freshAtom_failsOnly
      intro a
      apply (addConstraint_persists _).discard.bind
      intro _
      apply Persists.bind fun _ => allocate_failsOnly _
      exact fun v => Persists.bind_current fun o => Persists.bind_modify .pure
  refine Mirrors.of_fits (hpersists t₀) fun v t₁ hends ht₁ => ?_
  obtain ⟨hst, ⟨⟨o, ho, hv⟩, -⟩, -⟩ := (literalVariable_recalls u e value ht₀).of_ends hends
  have hst : t₀.Visits t₁ := hst
  obtain ⟨o', ho', hr⟩ := ho.visits (ht₁ (hst.wellFormed ht₀)).1
  exact literalVariable_fits ht h he ho' (hr.literals e v hv)

omit hk in
theorem unknownCallee_mirrors {call : ExprId} :
    Mirrors (keepsFaithful u known) t (unknownCallee u call) t₀ (unknownCallee u call) ρ s
      fun v own ρ' s' => v = ρ'.var own ∧ own < s'.arena.size := by
  have hpersists : Persists (unknownCallee u call) := by
    apply Persists.bind_current
    intro o
    split
    · exact .pure
    · apply Persists.bind fun _ => allocate_failsOnly _
      exact fun v => Persists.bind_current fun o => Persists.bind_modify .pure
  refine Mirrors.of_fits (hpersists t₀) fun v t₁ hends ht₁ => ?_
  obtain ⟨hst, ⟨⟨o, ho, hv⟩, -⟩, -⟩ := (unknownCallee_recalls u call ht₀).of_ends hends
  have hst : t₀.Visits t₁ := hst
  obtain ⟨o', ho', hr⟩ := ho.visits (ht₁ (hst.wellFormed ht₀)).1
  exact unknownCallee_fits ht h ho' (hr.unknownCallees call v hv)

/-- A call of a named declaration returns the same on both sides. -/
theorem denoteCall_mirrors (call : ExprId) (target : DeclId) :
    Mirrors (keepsFaithful u known) t (denoteCall u call target) t₀ (denoteCall u call target) ρ s
      SameVars := by
  have hR := keepsFaithful_admitsDenoting u known
  apply Mirrors.bind_lift
  intro d _
  split
  · exact Mirrors.unresolved h
  · refine Mirrors.bind (denoteDecl_recalls_of hR target .declaration ht₀)
      (denoteDecl_mirrors ht ht₀ h hk target .declaration) ?_ ?_
    · intro found t₁ hst _
      refine Meets.bind_get ?_
      dsimp only
      split
      · exact Meets.pure trivial
      · exact Meets.bind (hR.unknown call ((hst ht₀).1.wellFormed ht₀)) fun _ _ _ _ => .pure trivial
    · intro found t₁ own ρ₁ s₁ hst hfound ht₁ he _ htracks
      obtain ⟨hholds, -⟩ := hfound
      have hwf := (hst ht₀).1.wellFormed ht₀
      have hlast := htracks.last
      rw [Arena.signatures, reachableFunctions_eq hwf hholds (ht₁ hwf).1.toExtends] at hlast
      apply Mirrors.bind_get
      dsimp only
      rw [hlast]
      cases hown : (s₁.arena.signatures own).getLast? with
      | some f =>
        rw [Arena.signatures] at hown
        rw [hown]
        refine Mirrors.pure he ⟨fun v hv => ?_, .rename f.returns⟩
        exact return_lt he.wellFormed (List.mem_of_getLast? hown) hv
      | none =>
        rw [Arena.signatures] at hown
        rw [hown]
        refine Mirrors.bind (hR.unknown call hwf) (unknownCallee_mirrors ht hwf he)
          (fun _ _ _ _ => .pure trivial) fun v _ w ρ₂ s₂ _ _ _ he₂ _ hv => ?_
        exact Mirrors.pure he₂ ⟨.singleton hv.2, hv.1 ▸ .singleton w⟩

omit ht ht₀ h hk in
/-- What looks the same has the same returns. -/
theorem returns_sameVars {look look' : VarId → Option FunctionVariable} {set set' : VarSet}
    (hset : SameVars set' set ρ s)
    (hlook : ∀ v ∈ set, look' (ρ.var v) = (look v).map (FunctionVariable.rename ρ))
    (hreturns : ∀ f ∈ set.members.filterMap look, ∀ v ∈ f.returns, v < s.arena.size) :
    SameVars (.ofList ((set'.members.filterMap look').flatMap (·.returns.members)))
      (.ofList ((set.members.filterMap look).flatMap (·.returns.members))) ρ s := by
  constructor
  · intro v hv
    rw [VarSet.mem_ofList, List.mem_flatMap] at hv
    obtain ⟨f, hf, hv⟩ := hv
    exact hreturns f hf v hv
  · intro w
    simp only [VarSet.mem_ofList, List.mem_flatMap, List.mem_filterMap]
    constructor
    · rintro ⟨f', ⟨v', hv', hf'⟩, hw⟩
      obtain ⟨v, hv, rfl⟩ := (hset.2 v').1 hv'
      rw [hlook v hv] at hf'
      obtain ⟨f, hf, rfl⟩ := Option.map_eq_some_iff.1 hf'
      obtain ⟨x, hx, rfl⟩ := List.mem_map.1 hw
      exact ⟨x, ⟨f, ⟨v, hv, hf⟩, hx⟩, rfl⟩
    · rintro ⟨x, ⟨f, ⟨v, hv, hf⟩, hx⟩, rfl⟩
      exact ⟨f.rename ρ, ⟨ρ.var v, (hset.2 _).2 ⟨v, hv, rfl⟩, by rw [hlook v hv, hf]; rfl⟩,
        List.mem_map_of_mem hx⟩

omit ht ht₀ hk in
/-- What some callees return is the same in both. -/
theorem returnsOf_sameVars {callees callees' : VarSet} (hc : SameVars callees' callees ρ s) :
    SameVars (returnsOf t.arena callees') (returnsOf s.arena callees) ρ s :=
  returns_sameVars hc
    (fun v hv => h.arena.reachableFunction?_eq h.wellFormed.arena (hc.1 v hv))
    fun _ hf _ hv => return_lt h.wellFormed hf hv

omit ht ht₀ hk in
theorem any_isFunction_eq {set set' : VarSet} (hset : SameVars set' set ρ s) :
    set'.members.any t.arena.isFunction = set.members.any s.arena.isFunction := by
  rw [Bool.eq_iff_iff, List.any_eq_true, List.any_eq_true]
  constructor
  · rintro ⟨v', hv', hfun⟩
    obtain ⟨v, hv, rfl⟩ := (hset.2 v').1 hv'
    exact ⟨v, hv, by rwa [h.arena.isFunction_eq (hset.1 v hv)] at hfun⟩
  · rintro ⟨v, hv, hfun⟩
    exact ⟨ρ.var v, (hset.2 _).2 ⟨v, hv, rfl⟩, by rwa [h.arena.isFunction_eq (hset.1 v hv)]⟩

end

/-- An expression denotes the same on both sides: one case for each kind. A call without a named
callee needs that it is not of one signature or another. -/
theorem denoteWithin_mirrors (ht : t.Visited u known) (n : Nat) (e : ExprId) (view : Viewpoint)
    (ht₀ : t₀.WellFormed) (h : s.Embeds ρ t) (hk : s.Knows u known) :
    Mirrors (keepsFaithful u known) t (denoteWithin u n e view) t₀ (denoteWithin u n e view) ρ s
      SameVars := by
  have hR := keepsFaithful_admitsDenoting u known
  have hdenotes (n : Nat) (e : ExprId) (view : Viewpoint) :
      Stays (keepsFaithful u known) (denoteWithin u n e view) :=
    .of_meets (fun hs hwf => absurd hwf hs) fun _ hs => denoteWithin_recalls_of hR n e view hs
  induction n generalizing t₀ s ρ e view with
  | zero => exact Mirrors.unresolved h
  | succ n ih =>
    apply Mirrors.bind_lift
    intro x hx
    cases x with
    | paren inner | implicitCast inner | bindTemporary inner => exact ih inner view ht₀ h hk
    | declRef d | member _ d =>
      exact (denoteDecl_mirrors ht ht₀ h hk d view).mono fun _ _ _ _ _ _ htracks =>
        ⟨htracks.holds, htracks.images⟩
    | binary _ lhs rhs =>
      refine Mirrors.bind (hdenotes n lhs view t₀) (ih lhs view ht₀ h hk)
        (fun _ t₁ _ _ => (hdenotes n rhs view t₁).bind fun _ _ _ _ => .pure trivial) ?_
      intro left t₁ own ρ₁ s₁ hst _ _ he hl hleft
      refine Mirrors.bind (hdenotes n rhs view t₁)
        (ih rhs view ((hst ht₀).1.wellFormed ht₀) he (hk.later hl))
        (fun _ _ _ _ => .pure trivial) ?_
      intro right _ _ ρ₂ s₂ _ _ _ he₂ hl₂ hright
      exact Mirrors.pure he₂ ((hleft.later hl₂).union hright)
    | subscript base _ =>
      refine Mirrors.bind (denoteWithin_recalls_of hR n base view ht₀) (ih base view ht₀ h hk)
        (fun set t₁ hst hset =>
          (dereferenceAll_recalls hR ((hst ht₀).1.wellFormed ht₀) hset.1).any) ?_
      intro set t₁ own ρ₁ s₁ hst _ _ he hl hset
      exact dereference_mirrors ht ((hst ht₀).1.wellFormed ht₀) he hset
    | unary op operand =>
      cases op with
      | deref =>
        refine Mirrors.bind (denoteWithin_recalls_of hR n operand view ht₀)
          (ih operand view ht₀ h hk) ?_ ?_
        · intro set t₁ hst hset
          refine Meets.bind_get ?_
          split
          · exact Meets.unresolved
          · exact (dereferenceAll_recalls hR ((hst ht₀).1.wellFormed ht₀) hset.1).any
        · intro set t₁ own ρ₁ s₁ hst hfound ht₁ he hl hset
          obtain ⟨hholds, -⟩ := hfound
          have hwf := (hst ht₀).1.wellFormed ht₀
          have hany : set.members.any t₁.arena.isFunction = own.members.any s₁.arena.isFunction :=
            (anyFunction_eq hholds (ht₁ hwf).1.toExtends).symm.trans (any_isFunction_eq he hset)
          apply Mirrors.bind_get
          rw [hany]
          split
          · exact Mirrors.unresolved he
          · exact dereference_mirrors ht hwf he hset
      | addrOf | neg | not => exact ih operand view ht₀ h hk
    | call callee args =>
      apply Mirrors.bind_lift
      intro target _
      split
      · exact denoteCall_mirrors ht ht₀ h hk e _
      · refine Mirrors.bind (denoteWithin_recalls_of hR n callee .declaration ht₀)
          (ih callee .declaration ht₀ h hk) (fun _ _ _ _ => Meets.bind_get (.pure trivial)) ?_
        intro callees t₁ own ρ₁ s₁ hst hfound ht₁ he _ hsame
        obtain ⟨hholds, -⟩ := hfound
        have hwf := (hst ht₀).1.wellFormed ht₀
        have hreturns : returnsOf t₁.arena callees = returnsOf t.arena callees := by
          rw [returnsOf, returnsOf, reachableFunctions_eq hwf hholds (ht₁ hwf).1.toExtends]
        refine Mirrors.bind_get (Mirrors.pure he ?_)
        rw [hreturns]
        exact returnsOf_sameVars he hsame
    | conditional cond whenTrue whenFalse =>
      refine Mirrors.bind (hdenotes n cond view t₀) (ih cond view ht₀ h hk) (fun _ t₁ _ _ =>
        (hdenotes n whenTrue view t₁).bind fun _ t₂ _ _ =>
          (hdenotes n whenFalse view t₂).bind fun _ _ _ _ => .pure trivial) ?_
      intro first t₁ _ ρ₁ s₁ hst _ _ he hl hfirst
      have ht₁ := (hst ht₀).1.wellFormed ht₀
      have hk₁ := hk.later hl
      refine Mirrors.bind (hdenotes n whenTrue view t₁) (ih whenTrue view ht₁ he hk₁)
        (fun _ t₂ _ _ => (hdenotes n whenFalse view t₂).bind fun _ _ _ _ => .pure trivial) ?_
      intro second t₂ _ ρ₂ s₂ hst₂ _ _ he₂ hl₂ hsecond
      refine Mirrors.bind (hdenotes n whenFalse view t₂)
        (ih whenFalse view ((hst₂ ht₁).1.wellFormed ht₁) he₂ (hk₁.later hl₂))
        (fun _ _ _ _ => .pure trivial) ?_
      intro third _ _ ρ₃ s₃ _ _ _ he₃ hl₃ hthird
      exact Mirrors.pure he₃ ((((hfirst.later hl₂).union hsecond).later hl₃).union hthird)
    | stringLiteral value =>
      refine Mirrors.bind (hR.literal e value ht₀ hx) (literalVariable_mirrors ht ht₀ h hx)
        (fun _ _ _ _ => .pure trivial) fun v _ w ρ₁ s₁ _ _ _ he _ hv => ?_
      exact Mirrors.pure he ⟨.singleton hv.2, hv.1 ▸ .singleton w⟩
    | intLiteral _ | cast _ _ | sizeOf _ => exact Mirrors.pure h ⟨.empty s, .empty⟩

/-- An expression denotes the same in both runs. -/
theorem denote_mirrors (ht : t.Visited u known) (e : ExprId) (view : Viewpoint)
    (ht₀ : t₀.WellFormed) (h : s.Embeds ρ t) (hk : s.Knows u known) :
    Mirrors (keepsFaithful u known) t (denote u e view) t₀ (denote u e view) ρ s SameVars :=
  Mirrors.bind_requireOpen (h.exists_isOpen ht) (denoteWithin_mirrors ht _ e view ht₀ h hk)

end Session

end CheckedPointers
