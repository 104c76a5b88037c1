import CheckedPointers.Proofs.Session.Denotation
import CheckedPointers.Proofs.Session.Staying

/-!
What a session remembers of a unit is what would be made now: a variable one dereference down has
the lower levels, the variable of a literal has its text, and a signature made on demand was made
for the definition that is asked for.
-/
namespace CheckedPointers

open Op

namespace TranslationUnit

/-- A signature for `maker` is asked for under a key, on account of a function that the unit has no
prototype for. -/
structure Asks (u : TranslationUnit) (func : DeclId) (key : FunctionKey) (maker : DeclId) :
    Prop where
  isFunction : u.IsFunction func
  prototype : u.prototypeOf func = .ok none
  key : u.pairingKey func = .ok key
  maker : ∃ o, u.definitionFor func = .ok o ∧ o.getD func = maker

/-- Functions with different names have different keys. -/
def KeysTellNames (u : TranslationUnit) : Prop :=
  ∀ d ∈ u.decls, ∀ d' ∈ u.decls, d.isFunction → d'.isFunction → d.key = d'.key → d.name = d'.name

variable {u : TranslationUnit} {f g a b : DeclId} {key : FunctionKey}

theorem asks_of_pairingKey (hf : u.IsFunction f) (hproto : u.prototypeOf f = .ok none)
    (hkey : u.pairingKey f = .ok key) :
    ∃ o, u.definitionFor f = .ok o ∧ u.Asks f key (o.getD f) := by
  cases hd : u.definitionFor f with
  | error e =>
    rw [pairingKey, hd] at hkey
    cases hkey
  | ok o => exact ⟨o, rfl, hf, hproto, hkey, o, hd, rfl⟩

/-- What is asked for under a key is a definition, the first one of its name. -/
theorem Asks.definition (h : u.Asks f key a) : ∃ d e, u.decl f = .ok d ∧
    u.findFunction? d.name Decl.hasBody = some a ∧ u.decl a = .ok e ∧ e.isFunction ∧
      e.name = d.name ∧ e.key = key := by
  obtain ⟨⟨d, hd, hfun⟩, hproto, hkey, o, ho, rfl⟩ := h
  have hproto : u.findFunction? d.name (fun d => !d.hasBody) = none := by
    rw [prototypeOf, hd] at hproto
    exact Except.ok.inj hproto
  have ho : o = u.findFunction? d.name Decl.hasBody := by
    rw [definitionFor, hd] at ho
    exact (Except.ok.inj ho).symm
  have hmem := Array.mem_of_getElem? (decl_eq_ok.1 hd)
  have hbody : d.hasBody := by
    have hnone := Array.findIdx?_eq_none_iff.1 hproto d hmem
    simpa [hfun] using hnone
  obtain ⟨m, hm⟩ : ∃ m, u.findFunction? d.name Decl.hasBody = some m := by
    refine Option.ne_none_iff_exists'.1 fun hnone => ?_
    have hnot := Array.findIdx?_eq_none_iff.1 hnone d hmem
    simp [hfun, hbody] at hnot
  obtain ⟨e, he, hefun, hname, -⟩ := findFunction?_spec hm
  rw [pairingKey, definitionFor, hd] at hkey
  rw [ho, hm]
  have hkey : u.keyOf ((u.findFunction? d.name Decl.hasBody).getD f) = .ok key := hkey
  rw [hm, Option.getD_some] at hkey
  exact ⟨d, e, hd, hm, he, hefun, hname, (keyOf_eq_ok he).1 hkey⟩

/-- A key is asked for on account of one name, so it is asked for one signature. -/
theorem Asks.unique (hu : u.KeysTellNames) (ha : u.Asks f key a) (hb : u.Asks g key b) : a = b := by
  obtain ⟨d, e, -, hm, he, hefun, hname, hkey⟩ := ha.definition
  obtain ⟨d', e', -, hm', he', hefun', hname', hkey'⟩ := hb.definition
  have hnames := hu e (Array.mem_of_getElem? (decl_eq_ok.1 he)) e'
    (Array.mem_of_getElem? (decl_eq_ok.1 he')) hefun hefun' (hkey.trans hkey'.symm)
  rw [← hname, hnames, hname'] at hm
  exact Option.some.inj (hm.symm.trans hm')

end TranslationUnit

namespace Session

variable {s t : Session} {u : TranslationUnit} {known : FunctionKey → Prop}

def KeepsDeclared (s t : Session) : Prop :=
  ∀ key set, s.pairing.declared? key = some set →
    ∃ set', t.pairing.declared? key = some set' ∧ ∀ v ∈ set, v ∈ set'

theorem KeepsDeclared.refl (s : Session) : s.KeepsDeclared s := fun _ set h => ⟨set, h, fun _ => id⟩

theorem KeepsDeclared.trans {w : Session} (h : s.KeepsDeclared t) (h' : t.KeepsDeclared w) :
    s.KeepsDeclared w := by
  intro key set hset
  obtain ⟨set', hset', hall⟩ := h key set hset
  obtain ⟨set'', hset'', hall'⟩ := h' key set' hset'
  exact ⟨set'', hset'', fun v hv => hall' v (hall v hv)⟩

theorem KeepsDeclared.of_eq (h : t.pairing = s.pairing) : s.KeepsDeclared t := by
  intro key set hset
  exact ⟨set, h ▸ hset, fun _ => id⟩

def LiesBelow (s : Session) (v : VarId) (below : Option VarId) : Prop :=
  v < s.arena.size ∧
    below.bind s.arena.pointer? = (s.arena.pointer? v).bind PointerVariable.dereferenced?

def IsLiteral (u : TranslationUnit) (s : Session) (e : ExprId) (v : VarId) : Prop :=
  ∃ a value, u.expr e = .ok (.stringLiteral value) ∧
    s.arena.pointer? v = some ⟨[a], "const char", value, none, false, none⟩ ∧
    s.solver.Says (.atLeast a .ntArr)

/-- A signature that was made for what is asked for under a key. -/
def MadeFor (u : TranslationUnit) (s : Session) (key : FunctionKey) (set : VarSet) : Prop :=
  ∃ func maker w r r', set = .singleton w ∧ u.Asks func key maker ∧
    (newFunction u maker).Ends r w r' ∧ r'.Extends s ∧
    ∃ declared, s.pairing.declared? key = some declared ∧ w ∈ declared

/-- The tables of a session hold what would be made for `u` now, but for signatures under known
keys. -/
structure Faithful (u : TranslationUnit) (known : FunctionKey → Prop) (s : Session) : Prop where
  wellFormed : s.WellFormed
  pointees : ∀ e ∈ s.pointees.entries, s.LiesBelow e.1 e.2
  literals : ∀ o, s.opened = some o → ∀ e ∈ o.literals.entries, IsLiteral u s e.1 e.2
  unknownCallees : ∀ o, s.opened = some o → ∀ e ∈ o.unknownCallees.entries,
    s.arena.function? e.2 = some .unknown
  implicits : ∀ e ∈ s.implicits.entries, known e.1 ∨ MadeFor u s e.1 e.2

theorem LiesBelow.extends {v : VarId} {below : Option VarId} (h : s.LiesBelow v below)
    (hbelow : ∀ d, below = some d → s.arena.isPointer d) (hst : s.Extends t) :
    t.LiesBelow v below := by
  refine ⟨Nat.lt_of_lt_of_le h.1 hst.arena.size_le, ?_⟩
  rw [hst.arena.pointer?_eq h.1, ← h.2]
  cases below with
  | none => rfl
  | some d => exact hst.arena.pointer?_eq (Arena.lt_of_isPointer (hbelow d rfl))

theorem IsLiteral.extends {e : ExprId} {v : VarId} (h : IsLiteral u s e v) (hst : s.Extends t) :
    IsLiteral u t e v := by
  obtain ⟨a, value, he, hv, hsaid⟩ := h
  exact ⟨a, value, he, hst.arena.pointer? hv, hsaid.grows hst.solver⟩

theorem MadeFor.extends {key : FunctionKey} {set : VarSet} (h : MadeFor u s key set)
    (hst : s.Extends t) (hd : s.KeepsDeclared t) : MadeFor u t key set := by
  obtain ⟨func, maker, w, r, r', hset, hasks, hends, hrs, declared, hdeclared, hw⟩ := h
  obtain ⟨declared', hdeclared', hall⟩ := hd key declared hdeclared
  exact ⟨func, maker, w, r, r', hset, hasks, hends, hrs.trans hst, declared', hdeclared',
    hall w hw⟩

/-- A session stays faithful if every new entry is right. -/
theorem Faithful.extends (h : s.Faithful u known) (hst : s.Extends t) (hd : s.KeepsDeclared t)
    (hpointees : ∀ e ∈ t.pointees.entries, e ∈ s.pointees.entries ∨ t.LiesBelow e.1 e.2)
    (hopened : ∀ o', t.opened = some o' → ∃ o, s.opened = some o ∧
      (∀ e ∈ o'.literals.entries, e ∈ o.literals.entries ∨ IsLiteral u t e.1 e.2) ∧
      ∀ e ∈ o'.unknownCallees.entries,
        e ∈ o.unknownCallees.entries ∨ t.arena.function? e.2 = some .unknown)
    (himplicits : ∀ e ∈ t.implicits.entries, e ∈ s.implicits.entries ∨ MadeFor u t e.1 e.2) :
    t.Faithful u known where
  wellFormed := hst.wellFormed h.wellFormed
  pointees e he := by
    rcases hpointees e he with he | he
    · exact (h.pointees e he).extends (h.wellFormed.pointees e he) hst
    · exact he
  literals o' ho' e he := by
    obtain ⟨o, ho, hliterals, -⟩ := hopened o' ho'
    exact (hliterals e he).elim (fun he => (h.literals o ho e he).extends hst) id
  unknownCallees o' ho' e he := by
    obtain ⟨o, ho, -, hunknown⟩ := hopened o' ho'
    exact (hunknown e he).elim (fun he => hst.arena.function? (h.unknownCallees o ho e he)) id
  implicits e he := by
    rcases himplicits e he with he | he
    · exact (h.implicits e he).imp_right fun hmade => hmade.extends hst hd
    · exact .inr he

/-- A visit that leaves a faithful session faithful, if it starts in a well-formed one. -/
def keepsFaithful (u : TranslationUnit) (known : FunctionKey → Prop) : Frame where
  rel s t := s.WellFormed → s.Visits t ∧ s.KeepsDeclared t ∧
    (s.Faithful u known → t.Faithful u known)
  refl s _ := ⟨.refl s, .refl s, id⟩
  trans h h' hs := by
    obtain ⟨hst, hd, hf⟩ := h hs
    obtain ⟨hst', hd', hf'⟩ := h' (hst.wellFormed hs)
    exact ⟨hst.trans hst', hd.trans hd', hf' ∘ hf⟩

/-- What is only created makes nothing unfaithful. -/
theorem Creates.keepsFaithful (h : s.Creates t) : (keepsFaithful u known).rel s t := by
  intro _
  have hd : s.KeepsDeclared t := .of_eq (by rw [h.only])
  refine ⟨h.visits, hd, fun hf => hf.extends h.toExtends hd ?_ ?_ ?_⟩ <;> rw [h.only]
  · exact fun e => .inl
  · exact fun o ho => ⟨o, ho, fun e => .inl, fun e => .inl⟩
  · exact fun e => .inl

end Session

open Session

namespace Op

variable {α β : Type} {R : Frame} {x : Op α} {s : Session} {Q : α → Session → Prop}
  {u : TranslationUnit} {known : FunctionKey → Prop}

/-- What is recalled through any change of a visit is recalled through narrower ones. -/
theorem Recalls.narrow (h : Recalls .visits x s Q) (h' : Meets R x s fun _ _ => True)
    (hs : s.WellFormed) (hR : ∀ {s t : Session}, s.WellFormed → R.rel s t → s.Visits t) :
    Recalls R x s Q := by
  refine (h'.both h).mono fun a t _ ⟨_, hst, hq, hreplays⟩ => ⟨hq, fun w hw => ?_⟩
  have hst : s.Visits t := hst
  exact hreplays w (hR (hst.wellFormed hs) hw)

theorem Meets.to_keepsFaithful (h : Meets .creates x s Q) :
    Meets (keepsFaithful u known) x s Q := h.widen fun _ hst => Session.Creates.keepsFaithful hst

end Op

namespace Session

variable {s t : Session} {u : TranslationUnit} {known : FunctionKey → Prop}

/-! ## What is made -/

theorem mem_declared (r : Pairing) (key : FunctionKey) (v : VarId) :
    ∃ set, (r.declare key v).declared? key = some set ∧ v ∈ set :=
  ⟨_, by rw [Pairing.declare, Pairing.declared?, OrderedMap.find?_insert, if_pos rfl],
    (VarSet.mem_insert _ _ _).2 (.inl rfl)⟩

/-- Declaring a function under a key takes nothing away that was declared. -/
theorem declare_keepsFaithful {key : FunctionKey} {v : VarId} (hv : s.arena.isFunction v) :
    Meets (keepsFaithful u known) (updatePairing (·.declare key v)) s fun _ t =>
      t = { s with pairing := s.pairing.declare key v } := by
  have hst : s.Visits { s with pairing := s.pairing.declare key v } := (declare_meets hv).1
  refine Meets.modify (fun _ => ?_) rfl
  have hd : s.KeepsDeclared { s with pairing := s.pairing.declare key v } := by
    intro key' set hset
    simp only [Pairing.declare, Pairing.declared?, OrderedMap.find?_insert] at hset ⊢
    by_cases hkey : key' = key
    · subst hkey
      refine ⟨_, if_pos rfl, fun w hw => ?_⟩
      rw [hset]
      exact (VarSet.mem_insert _ _ _).2 (.inr hw)
    · exact ⟨set, by rw [if_neg hkey]; exact hset, fun _ => id⟩
  exact ⟨hst, hd, fun hf => hf.extends hst.toExtends hd (fun _ => .inl)
    (fun o ho => ⟨o, ho, fun _ => .inl, fun _ => .inl⟩) fun _ => .inl⟩

/-- The signature on demand is the one that its function asks for. -/
theorem implicitPrototype_keepsFaithful {func : DeclId} (hs : s.WellFormed)
    (hfunc : u.IsFunction func) (hproto : u.prototypeOf func = .ok none) :
    Meets (keepsFaithful u known) (implicitPrototype u func) s fun _ _ => True := by
  refine Meets.bind_requireOpen fun _ _ => Meets.bind_lift fun key hkey => Meets.bind_get ?_
  split
  · exact Meets.pure trivial
  · next hnone =>
    refine Meets.bind_lift fun o ho => ?_
    refine Meets.bind (newFunction_meets u (o.getD func) s).run.frame.to_keepsFaithful
      fun v t _ hnew => ?_
    obtain ⟨hst, hends, _, f, -, -, hf, -⟩ := hnew
    have hv : t.arena.isFunction v := Arena.isFunction_iff.2 ⟨f, hf⟩
    refine Meets.bind (declare_keepsFaithful hv) fun _ w htw hw => ?_
    have htw := (htw (hst.wellFormed hs)).1
    refine Meets.bind (P := fun _ _ => True) (Meets.modify (fun _ => ?_) trivial)
      fun _ _ _ _ => Meets.pure trivial
    have hfun : w.arena.isFunction v := by rw [hw]; exact hv
    have hfree : w.implicits.find? key = none := by rw [hw, hst.only]; exact hnone
    have hwz : w.Visits { w with implicits := w.implicits.insert key (.singleton v) } :=
      (addImplicit_meets hfun hfree).1
    refine ⟨hwz, .of_eq rfl, fun hf => hf.extends hwz.toExtends (.of_eq rfl) (fun _ => .inl)
      (fun o ho => ⟨o, ho, fun _ => .inl, fun _ => .inl⟩) fun e he => ?_⟩
    refine (OrderedMap.mem_insert he).symm.imp_right ?_
    rintro rfl
    refine ⟨func, o.getD func, v, s, t, rfl, ⟨hfunc, hproto, hkey, o, ho, rfl⟩, hends,
      htw.toExtends.trans hwz.toExtends, ?_⟩
    rw [hw]
    exact mem_declared t.pairing key v

/-- What lies below a variable is remembered as it was made. -/
theorem dereferenceOne_keepsFaithful {v : VarId} (hs : s.WellFormed) (hv : v < s.arena.size) :
    Meets (keepsFaithful u known) (dereferenceOne v) s fun _ _ => True := by
  refine Meets.bind_get ?_
  split
  · exact Meets.pure trivial
  · next hnone =>
    refine Meets.bind_get ?_
    have hkeep : ∀ made t, s.Creates t → (∀ d, made = some d → t.arena.isPointer d) →
        t.LiesBelow v made → Meets (keepsFaithful u known) (do
          modify fun s => { s with pointees := s.pointees.insert v made }
          return made) t fun _ _ => True := by
      intro made t hst hmade hbelow
      have hfree : t.pointees.find? v = none := by rw [hst.only]; exact hnone
      have htw : t.Visits { t with pointees := t.pointees.insert v made } :=
        (addPointee_meets hmade hfree).1
      refine Meets.bind (P := fun _ _ => True) (Meets.modify (fun _ => ?_) trivial)
        fun _ _ _ _ => Meets.pure trivial
      refine ⟨htw, .of_eq rfl, fun hf => hf.extends htw.toExtends (.of_eq rfl) (fun e he => ?_)
        (fun o ho => ⟨o, ho, fun _ => .inl, fun _ => .inl⟩) fun _ => .inl⟩
      refine (OrderedMap.mem_insert he).symm.imp_right ?_
      rintro rfl
      exact hbelow
    split
    · next p hp =>
      obtain ⟨q, hq, hqp⟩ := Option.bind_eq_some_iff.1 hp
      have hadmits := hs.arena.admits_dereferenced hq hqp
      refine Meets.bind (P := fun o t => s.Creates t ∧
        ∃ d, o = some d ∧ t.arena.pointer? d = some p)
        (Meets.map ((allocate_meets hadmits).frame.to_keepsFaithful.mono fun d t _ hnew =>
          ⟨hnew.1, d, rfl, Arena.pointer?_of_getElem? hnew.2⟩)) ?_
      rintro _ t _ ⟨hst, d, rfl, hd⟩
      refine hkeep _ t hst (fun d' hd' => ?_) ⟨Nat.lt_of_lt_of_le hv hst.arena.size_le, ?_⟩
      · obtain rfl := Option.some.inj hd'
        exact Arena.isPointer_iff.2 ⟨p, hd⟩
      · rw [hst.arena.pointer?_eq hv, hp, Option.bind_some, hd]
    · next hp =>
      refine hkeep none s (.refl s) (fun d hd => ?_) ⟨hv, hp.symm⟩
      cases hd

/-- The open unit learns of variables that were made for it. -/
theorem setOpen_keepsFaithful {o o' : OpenUnit} (ho : s.opened = some o) (hr : o.Remembers o')
    (hliterals : ∀ e ∈ o'.literals.entries, e ∈ o.literals.entries ∨ IsLiteral u s e.1 e.2)
    (hunknown : ∀ e ∈ o'.unknownCallees.entries,
      e ∈ o.unknownCallees.entries ∨ s.arena.function? e.2 = some .unknown) :
    (keepsFaithful u known).rel s { s with opened := some o' } := by
  have hst : s.Visits { s with opened := some o' } := by
    refine (setOpen_meets ho hr (fun e he => ?_) fun e he => ?_).1
    · refine (hliterals e he).imp_right ?_
      rintro ⟨a, value, -, hv, -⟩
      exact Arena.isPointer_iff.2 ⟨_, hv⟩
    · exact (hunknown e he).imp_right fun hv => Arena.isFunction_iff.2 ⟨_, hv⟩
  refine fun _ => ⟨hst, .of_eq rfl, fun hf => hf.extends hst.toExtends (.of_eq rfl)
    (fun _ => .inl) (fun o₁ ho₁ => ?_) fun _ => .inl⟩
  obtain rfl := Option.some.inj ho₁
  exact ⟨o, ho, hliterals, hunknown⟩

/-- The literal is remembered as the unit has it. -/
theorem literalVariable_keepsFaithful {e : ExprId} {value : String}
    (he : u.expr e = .ok (.stringLiteral value)) :
    Meets (keepsFaithful u known) (literalVariable u e value) s fun _ _ => True := by
  refine Meets.bind_current fun o ho => ?_
  split
  · exact Meets.pure trivial
  · next hnone =>
    refine Meets.bind (freshAtom_meets s).frame.to_keepsFaithful fun a t _ ⟨hst, ha⟩ => ?_
    refine Meets.bind (P := fun _ w => t.Records w ∧ w.solver.Says (.atLeast a .ntArr))
      (Meets.discard (addConstraint_stated _ t).frame.to_creates.to_keepsFaithful)
      fun _ w _ ⟨htw, hsaid⟩ => ?_
    have hadmits : w.arena.Admits w.solver.cells.size
        (.pointer ⟨[a], "const char", value, none, false, none⟩) := by
      constructor
      · intro f hf
        cases hf
      · intro b hb
        rw [List.mem_singleton.1 hb, htw.size]
        exact ha
    refine Meets.bind (allocate_meets hadmits).frame.to_keepsFaithful fun v z _ ⟨hwz, hv⟩ => ?_
    have hv := Arena.pointer?_of_getElem? hv
    refine Meets.bind_current fun o' ho' => ?_
    obtain rfl : o' = o := by
      have hopened : z.opened = s.opened := by rw [hwz.only, htw.only, hst.only]
      exact Option.some.inj (ho'.1.symm.trans (hopened.trans ho.1))
    refine Meets.bind (P := fun _ _ => True) (Meets.modify (setOpen_keepsFaithful ho'.1
      ⟨rfl, rfl, fun _ _ => OrderedMap.find?_insert_of_free hnone, fun _ _ => id⟩
      (fun x hx => ?_) fun _ => .inl) trivial) fun _ _ _ _ => Meets.pure trivial
    refine (OrderedMap.mem_insert hx).symm.imp_right ?_
    rintro rfl
    exact ⟨a, value, he, hv, hsaid.grows hwz.solver⟩

theorem unknownCallee_keepsFaithful {call : ExprId} :
    Meets (keepsFaithful u known) (unknownCallee u call) s fun _ _ => True := by
  refine Meets.bind_current fun o ho => ?_
  split
  · exact Meets.pure trivial
  · next hnone =>
    have hadmits : s.arena.Admits s.solver.cells.size (.function .unknown) :=
      fun slot hslot => .inl (List.mem_singleton.1 hslot)
    refine Meets.bind (allocate_meets hadmits).frame.to_keepsFaithful fun v t _ ⟨hst, hv⟩ => ?_
    have hv := Arena.function?_of_getElem? hv
    refine Meets.bind_current fun o' ho' => ?_
    obtain rfl : o' = o := by
      have hopened : t.opened = s.opened := by rw [hst.only]
      exact Option.some.inj (ho'.1.symm.trans (hopened.trans ho.1))
    refine Meets.bind (P := fun _ _ => True) (Meets.modify (setOpen_keepsFaithful ho'.1
      ⟨rfl, rfl, fun _ _ => id, fun _ _ => OrderedMap.find?_insert_of_free hnone⟩
      (fun _ => .inl) fun x hx => ?_) trivial) fun _ _ _ _ => Meets.pure trivial
    refine (OrderedMap.mem_insert hx).symm.imp_right ?_
    rintro rfl
    exact hv

/-! ## What following does -/

/-- Nothing that is denoted makes a faithful session unfaithful. -/
theorem keepsFaithful_admitsDenoting (u : TranslationUnit) (known : FunctionKey → Prop) :
    AdmitsDenoting (keepsFaithful u known) u := by
  have hR {s t : Session} (hs : s.WellFormed) (hst : (keepsFaithful u known).rel s t) :
      s.Visits t := (hst hs).1
  constructor
  · exact hR
  · intro s func hs hfunc hproto
    exact (implicitPrototype_recalls u func hs).mono (fun _ _ _ h => h.1) |>.narrow
      (implicitPrototype_keepsFaithful hs hfunc hproto) hs hR
  · intro s v hs hv
    exact (dereferenceOne_recalls v hs).mono (fun _ _ _ h => h.2) |>.narrow
      (dereferenceOne_keepsFaithful hs hv) hs hR
  · intro s e value hs he
    exact (literalVariable_recalls u e value hs).mono (fun _ _ _ h => h.2) |>.narrow
      (literalVariable_keepsFaithful he) hs hR
  · intro s call hs
    exact (unknownCallee_recalls u call hs).mono (fun _ _ _ h => h.2) |>.narrow
      unknownCallee_keepsFaithful hs hR

theorem keepsFaithful_admitsFlowing (u : TranslationUnit) (known : FunctionKey → Prop) :
    (keepsFaithful u known).AdmitsFlowing u where
  records hst := hst.creates.keepsFaithful
  candidates ho _ := setOpen_keepsFaithful ho ⟨rfl, rfl, fun _ _ => id, fun _ _ => id⟩
    (fun _ => .inl) fun _ => .inl
  denotes e view := .of_meets (fun hs hwf => absurd hwf hs) fun _ hs =>
    denote_recalls_of (keepsFaithful_admitsDenoting u known) e view hs
  denotesDecl d view := .of_meets (fun hs hwf => absurd hwf hs) fun _ hs =>
    denoteDecl_recalls_of (keepsFaithful_admitsDenoting u known) d view hs

end Session

end CheckedPointers
