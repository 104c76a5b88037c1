import CheckedPointers.Proofs.Session.Ledger
import CheckedPointers.Proofs.Session.Order

/-!
What shares atoms and what does not. Two pointers share levels only if one lies below the other or
both below a third; literals share nothing, were they made for two expressions or for two openings
of a unit; and a definition shares nothing with any declaration, written or made on demand.
-/
namespace CheckedPointers

open Op

namespace Session

variable {s t : Session} {v w : VarId} {n : Nat} {options : Options}

/-! ## Literals -/

/-- `v` was made for a string literal: it has an atom of its own and leads nowhere. -/
structure Quoted (s : Session) (v : VarId) : Prop where
  own : ¬ s.Derived v
  pointer : ∃ a text, s.arena.pointer? v = some ⟨[a], "const char", text, none, false, none⟩

theorem Quoted.lt (h : s.Quoted v) : v < s.arena.size := by
  obtain ⟨a, text, hv⟩ := h.pointer
  exact Arena.lt_of_pointer? hv

theorem Quoted.step (h : s.Quoted v) (hs : s.WellFormed) (hst : s.Step t) : t.Quoted v where
  own := by
    rw [hst.derived_iff h.lt]
    exact h.own
  pointer := by
    obtain ⟨a, text, hv⟩ := h.pointer
    exact ⟨a, text, (hst.extends hs).arena.pointer? hv⟩

/-- Two literals have different atoms. -/
theorem Quoted.not_shares (hv : s.Quoted v) (hw : s.Quoted w) (hs : s.WellFormed)
    (hbalanced : s.Balanced) (hne : v ≠ w) : ¬ s.arena.Shares v w := by
  -- all that a literal owns is its one level
  have hgiven : ∀ {v a}, s.Quoted v → s.arena.Owns v a → s.Given a v 0 := by
    intro v a hv ha
    obtain ⟨b, text, hp⟩ := hv.pointer
    rcases (hs.arena.owns_pointer hp).1 ha with ha | ⟨f, hf, -⟩
    · obtain rfl := List.mem_singleton.1 ha
      exact ⟨hv.own, _, hp, rfl⟩
    · cases hf
  rintro ⟨a, hva, hwa⟩
  obtain ⟨r, i, -, honly⟩ := hbalanced.given (hs.arena.atom_lt_of_owns hva)
  exact hne ((honly v 0 (hgiven hv hva)).1.trans (honly w 0 (hgiven hw hwa)).1.symm)

/-- The literals of the open unit are from the `n`-th variable on, one for each expression. -/
structure QuotesFrom (n : Nat) (s : Session) : Prop where
  quoted : ∀ o, s.opened = some o → ∀ e v, o.literals.find? e = some v → n ≤ v ∧ s.Quoted v
  once : ∀ o, s.opened = some o → ∀ e e' v,
    o.literals.find? e = some v → o.literals.find? e' = some v → e = e'

theorem QuotesFrom.of_closed (h : s.opened = none) : QuotesFrom n s where
  quoted o ho := by simp [h] at ho
  once o ho := by simp [h] at ho

/-- A unit that is open after a step is one just entered, or was open with the same literals, or one
literal was new. -/
theorem Step.literals (h : s.Step t) (hs : s.WellFormed) {o' : OpenUnit}
    (ho' : t.opened = some o') : o'.literals = .empty ∨ ∃ o, s.opened = some o ∧
      (o'.literals = o.literals ∨ ∃ e, o'.literals = o.literals.insert e s.arena.size ∧
        t.Quoted s.arena.size) := by
  have hkept : t.opened = s.opened → ∃ o, s.opened = some o ∧ (o'.literals = o.literals ∨
      ∃ e, o'.literals = o.literals.insert e s.arena.size ∧ t.Quoted s.arena.size) :=
    fun heq => ⟨o', heq.symm.trans ho', .inl rfl⟩
  cases h with
  | visits h =>
    refine .inr ?_
    cases h with
    | looks h =>
      cases h with
      | builds h => exact hkept (by rw [h.only])
      | signs | derives | bottoms => exact hkept rfl
      | @quotes o e value ho hfree =>
        obtain rfl := Option.some.inj ho'
        refine ⟨o, ho, .inr ⟨e, rfl, ⟨?_, s.solver.cells.size, value, ?_⟩⟩⟩
        · rintro ⟨w, hw⟩
          exact absurd (Derived.lt (s := s) ⟨w, hw⟩ hs) (Nat.lt_irrefl _)
        · simp [withLiteral, Arena.pointer?_push, Variable.pointer?]
      | @guesses o call ho hfree =>
        obtain rfl := Option.some.inj ho'
        exact ⟨o, ho, .inl rfl⟩
    | records h => exact hkept (by rw [h.only])
    | @collects o ho found =>
      obtain rfl := Option.some.inj ho'
      exact ⟨o, ho, .inl rfl⟩
  | enters id file =>
    obtain rfl := Option.some.inj ho'
    exact .inl rfl
  | exits => cases ho'
  | _ => exact .inr (hkept rfl)

/-- Each literal of the open unit has a variable of its own, and none of the older ones. -/
theorem QuotesFrom.step (h : QuotesFrom n s) (hn : n ≤ s.arena.size) (hs : s.WellFormed)
    (hst : s.Step t) : QuotesFrom n t := by
  have hold : ∀ {o e v}, s.opened = some o → o.literals.find? e = some v → n ≤ v ∧ t.Quoted v :=
    fun ho he => (h.quoted _ ho _ _ he).imp_right (·.step hs hst)
  have hlt : ∀ {o e}, s.opened = some o → o.literals.find? e ≠ some s.arena.size :=
    fun ho he => absurd (h.quoted _ ho _ _ he).2.lt (Nat.lt_irrefl _)
  constructor
  · intro o' ho' e v he
    rcases hst.literals hs ho' with hlit | ⟨o, ho, hlit | ⟨e₀, hlit, hnew⟩⟩
    · simp [hlit] at he
    · exact hold ho (hlit ▸ he)
    · rw [hlit, OrderedMap.find?_insert] at he
      split at he
      · obtain rfl := Option.some.inj he
        exact ⟨hn, hnew⟩
      · exact hold ho he
  · intro o' ho' e e' v he he'
    rcases hst.literals hs ho' with hlit | ⟨o, ho, hlit | ⟨e₀, hlit, -⟩⟩
    · simp [hlit] at he
    · exact h.once o ho e e' v (hlit ▸ he) (hlit ▸ he')
    · rw [hlit, OrderedMap.find?_insert] at he he'
      split at he <;> split at he'
      · next heq heq' => exact heq.trans heq'.symm
      · exact absurd (he'.trans he.symm) (hlt ho)
      · exact absurd (he.trans he'.symm) (hlt ho)
      · exact h.once o ho e e' v he he'

theorem Continues.quotesFrom (hst : s.Continues t) (hs : s.WellFormed) (h : QuotesFrom n s)
    (hn : n ≤ s.arena.size) : QuotesFrom n t := by
  have hkeeps : n ≤ t.arena.size ∧ QuotesFrom n t := by
    apply stepping_keeps (P := fun t => n ≤ t.arena.size ∧ QuotesFrom n t) _ hst.stepping hs ⟨hn, h⟩
    intro s t hs hst ⟨hn, h⟩
    exact ⟨Nat.le_trans hn (hst.extends hs).arena.size_le, h.step hn hs hst⟩
  exact hkeeps.2

theorem Continues.quoted (hst : s.Continues t) (hs : s.WellFormed) (h : s.Quoted v) : t.Quoted v :=
  stepping_keeps (P := (·.Quoted v)) (fun _ _ hs hst h => h.step hs hst) hst.stepping hs h

/-- Literals of the open unit have variables of their own in every session that arises. -/
theorem Arises.quotes (h : Arises options s) : QuotesFrom 0 s :=
  h.quotesFrom (wellFormed_new options) (.of_closed rfl) (Nat.zero_le _)

/-- The literals of one opening share nothing. -/
theorem QuotesFrom.not_shares {o : OpenUnit} {e e' : ExprId} (h : QuotesFrom n s)
    (hs : s.WellFormed) (hbalanced : s.Balanced) (ho : s.opened = some o)
    (hv : o.literals.find? e = some v) (hw : o.literals.find? e' = some w) (hne : e ≠ e') :
    ¬ s.arena.Shares v w := by
  apply (h.quoted o ho e v hv).2.not_shares (h.quoted o ho e' w hw).2 hs hbalanced
  rintro rfl
  exact hne (h.once o ho e e' v hv hw)

/-- A literal of an earlier opening shares nothing with one of the opening that is on. -/
theorem Quoted.not_shares_later {z : Session} {o : OpenUnit} {e : ExprId} (h : z.Quoted v)
    (hz : z.WellFormed) (hclosed : z.opened = none) (hzt : z.Continues t) (hbalanced : t.Balanced)
    (ho : t.opened = some o) (hw : o.literals.find? e = some w) : ¬ t.arena.Shares v w := by
  -- what is quoted now was made after the earlier unit was left
  have hnow : QuotesFrom z.arena.size t := hzt.quotesFrom hz (.of_closed hclosed) (Nat.le_refl _)
  obtain ⟨hle, hquoted⟩ := hnow.quoted o ho e w hw
  have ht : t.WellFormed := (hzt.stepping hz).1
  exact (hzt.quoted hz h).not_shares hquoted ht hbalanced
    (Nat.ne_of_lt (Nat.lt_of_lt_of_le h.lt hle))

/-! ## Definitions and declarations -/

inductive Notes (s t : Session) : Prop where
  | nothing (hdefinitions : t.pairing.definitions = s.pairing.definitions)
      (hdeclarations : t.pairing.declarations = s.pairing.declarations)
      (himplicits : t.implicits = s.implicits)
  | definition {key : FunctionKey} {v : VarId} (hv : s.Unclaimed v)
      (hpairing : t.pairing = s.pairing.define key v) (himplicits : t.implicits = s.implicits)
  | declaration {key : FunctionKey} {v : VarId} (hv : s.Unclaimed v)
      (hpairing : t.pairing = s.pairing.declare key v)
      (himplicits : t.implicits = s.implicits ∨
        t.implicits = s.implicits.insert key (.singleton v))

/-- A step notes one function at most. -/
theorem Step.notes (h : s.Step t) : s.Notes t := by
  cases h with
  | visits h =>
    cases h with
    | looks h =>
      cases h with
      | builds h => exact .nothing (by rw [h.only]) (by rw [h.only]) (by rw [h.only])
      | signs hfree hv => exact .declaration hv rfl (.inr rfl)
      | derives | bottoms | quotes | guesses => exact .nothing rfl rfl rfl
    | records h => exact .nothing (by rw [h.only]) (by rw [h.only]) (by rw [h.only])
    | collects => exact .nothing rfl rfl rfl
  | defines key hv => exact .definition hv rfl rfl
  | declares key hv => exact .declaration hv rfl (.inl rfl)
  | _ => exact .nothing rfl rfl rfl

/-- At most one of a definition and a declaration is new, and then it was noted nowhere. -/
theorem Notes.one_new (h : s.Notes t) (hv : t.Registered v) (hw : t.Declared w) :
    s.Registered v ∧ s.Declared w ∨ s.Unclaimed v ∧ s.Declared w ∨
      s.Registered v ∧ s.Unclaimed w := by
  obtain ⟨key', hw⟩ := hw
  unfold Registered at hv
  cases h with
  | nothing hdefinitions hdeclarations himplicits =>
    rw [hdefinitions] at hv
    unfold Pairing.declaredUnder Pairing.declared? at hw
    rw [hdeclarations] at hw
    exact .inl ⟨hv, key', hw⟩
  | definition hv₀ hpairing himplicits =>
    rw [hpairing] at hv hw
    rcases Pairing.exists_mem_addTo.1 hv with rfl | hold
    · exact .inr (.inl ⟨hv₀, key', hw⟩)
    · exact .inl ⟨hold, key', hw⟩
  | declaration hw₀ hpairing himplicits =>
    rw [hpairing] at hv hw
    rcases Pairing.mem_declaredUnder_declare.1 hw with hold | ⟨-, rfl⟩
    · exact .inl ⟨hv, key', hold⟩
    · exact .inr (.inr ⟨hv, hw₀⟩)

/-- What is made on demand is noted as a declaration at once. -/
theorem Notes.signature {key : FunctionKey} {set : VarSet} (h : s.Notes t)
    (hset : t.implicits.find? key = some set) (hv : v ∈ set) :
    s.implicits.find? key = some set ∨ v ∈ t.pairing.declaredUnder key := by
  cases h with
  | nothing _ _ himplicits | definition _ _ himplicits => exact .inl (himplicits ▸ hset)
  | declaration _ hpairing himplicits =>
    rcases himplicits with himplicits | himplicits
    · exact .inl (himplicits ▸ hset)
    · rw [himplicits, OrderedMap.find?_insert] at hset
      split at hset
      · next hkey =>
        obtain rfl := Option.some.inj hset
        rw [hpairing, Pairing.mem_declaredUnder_declare]
        exact .inr (.inr ⟨hkey, (VarSet.mem_singleton _ v).1 hv⟩)
      · exact .inl hset

/-- No declaration is forgotten. -/
theorem Notes.declared {key : FunctionKey} (h : s.Notes t)
    (hv : v ∈ s.pairing.declaredUnder key) : v ∈ t.pairing.declaredUnder key := by
  cases h with
  | nothing _ hdeclarations _ =>
    unfold Pairing.declaredUnder Pairing.declared? at hv ⊢
    rwa [hdeclarations]
  | definition _ hpairing _ =>
    rw [hpairing]
    exact hv
  | declaration _ hpairing _ =>
    rw [hpairing, Pairing.mem_declaredUnder_declare]
    exact .inl hv

/-- What is noted as a definition shares nothing with what is noted as a declaration, and what was
made on demand is noted as a declaration. -/
structure Separate (s : Session) : Prop where
  functions : ∀ v w, s.Registered v → s.Declared w → w ≠ v ∧ ¬ s.arena.Shares v w
  signatures : ∀ key set, s.implicits.find? key = some set →
    ∀ v ∈ set, v ∈ s.pairing.declaredUnder key

/-- Definitions and declarations share nothing after a step, for a new function owns new atoms. -/
theorem Separate.step (h : s.Separate) (hs : s.WellFormed) (hst : s.Step t) : t.Separate := by
  -- of two functions that are there it is settled what they share
  have hlater : ∀ {v w}, s.arena.isFunction v → s.arena.isFunction w →
      w ≠ v ∧ ¬ s.arena.Shares v w → w ≠ v ∧ ¬ t.arena.Shares v w := by
    intro v w hv hw hvw
    rwa [hs.arena.shares_iff (hst.extends hs).arena (Arena.lt_of_isFunction hv)
      (Arena.lt_of_isFunction hw)]
  constructor
  · intro v w hv hw
    rcases hst.notes.one_new hv hw with ⟨hv, hw⟩ | ⟨hv, hw⟩ | ⟨hv, hw⟩
    · exact hlater (hv.isFunction hs) (hw.isFunction hs) (h.functions v w hv hw)
    · exact hlater hv.function (hw.isFunction hs) (hv.apart w (.inr hw))
    · obtain ⟨hne, hshares⟩ := hw.apart v (.inl hv)
      have hapart : ¬ s.arena.Shares v w := fun h => hshares h.symm
      exact hlater (hv.isFunction hs) hw.function ⟨hne.symm, hapart⟩
  · intro key set hset v hv
    rcases hst.notes.signature hset hv with hold | hnew
    · exact hst.notes.declared (h.signatures key set hold v hv)
    · exact hnew

theorem separate_new (options : Options) : (new options).Separate where
  functions := by
    rintro v w ⟨e, he, -⟩
    cases he
  signatures key set hset := by cases hset

theorem Arises.separate (h : Arises options s) : s.Separate :=
  h.keeps (separate_new options) fun _ _ hs hst hseparate => hseparate.step hs hst

/-! ## Everything at once -/

/-- Every atom is given once; what lies below a variable has its levels but the first, and all else
of it, for this variable alone; and nothing else is shared by pointers, by literals of one opening,
or by definitions and declarations. -/
structure Accounted (s : Session) : Prop where
  given : ∀ a < s.solver.cells.size,
    ∃ v i, s.Given a v i ∧ ∀ w j, s.Given a w j → w = v ∧ j = i
  below : ∀ v d, s.pointees.find? v = some (some d) → ∃ p a, s.arena.pointer? v = some p ∧
    p.atoms = a :: p.atoms.tail ∧ s.arena.pointer? d = some { p with atoms := p.atoms.tail }
  once : ∀ v w d,
    s.pointees.find? v = some (some d) → s.pointees.find? w = some (some d) → v = w
  bottom : ∀ v, s.pointees.find? v = some none →
    s.arena.isFunction v ∨ ∃ p, s.arena.pointer? v = some p ∧ p.atoms.length < 2
  levels : ∀ v w p q, s.arena.pointer? v = some p → s.arena.pointer? w = some q →
    p.atoms.Disjoint q.atoms ∨ p.atoms <:+ q.atoms ∨ q.atoms <:+ p.atoms
  literals : ∀ o, s.opened = some o → ∀ e e' v v', o.literals.find? e = some v →
    o.literals.find? e' = some v' → e ≠ e' → ¬ s.arena.Shares v v'
  functions : ∀ v w, s.Registered v → s.Declared w → ¬ s.arena.Shares v w
  signatures : ∀ key set, s.implicits.find? key = some set →
    ∀ v ∈ set, v ∈ s.pairing.declaredUnder key

/-- Whatever is asked of a session on whatever units, its atoms are accounted for, and the literals
of a unit that was open before some other unit was, or before the same was opened again, share
nothing with those of the unit that is open now. -/
theorem Arises.accounted (h : Arises options t) : t.Accounted ∧
    ∀ s w, Arises options s → s.Continues w → w.opened = none → w.Continues t →
      ∀ o o', s.opened = some o → t.opened = some o' → ∀ e e' v v', o.literals.find? e = some v →
        o'.literals.find? e' = some v' → ¬ t.arena.Shares v v' := by
  have ht := h.wellFormed
  constructor
  · exact
      { given := fun a => h.balanced.given
        below := fun v d => h.knowsBelow.rest
        once := h.knowsBelow.once
        bottom := fun v => h.knowsBelow.bottom
        levels := fun v w p q => h.balanced.disjoint_or_suffix ht h.knowsBelow
        literals := fun o ho e e' v v' => h.quotes.not_shares ht h.balanced ho
        functions := fun v w hv hw => (h.separate.functions v w hv hw).2
        signatures := h.separate.signatures }
  · intro s w hs hsw hclosed hwt o o' ho ho' e e' v v' hv hv'
    have hw : w.WellFormed := (hsw.stepping hs.wellFormed).1
    have hquoted := hsw.quoted hs.wellFormed (hs.quotes.quoted o ho e v hv).2
    exact hquoted.not_shares_later hw hclosed hwt h.balanced ho' hv'

/-- The unit is followed, left, entered once more and followed again: the literal that was variable
9 is now variable 13. -/
theorem Arises.accounted_quotingUnit :
    ∃ s w t, Arises .default s ∧ s.Continues w ∧ w.opened = none ∧ w.Continues t ∧
      (s.opened.map fun o => o.literals.find? 2) = some (some 9) ∧
      (t.opened.map fun o => o.literals.find? 2) = some (some 13) ∧
      t.solver.cells.size = 12 ∧ t.pointees.find? 4 = some (some 8) ∧ t.Accounted ∧
      ¬ t.arena.Shares 9 13 := by
  let s := (Session.new .default).after quotingRequests
  let w := s.after [.exit]
  let t := w.after [.enter quotingUnit, .flow quotingUnit]
  have hs : Arises .default s := Continues.after quotingRequests_lawful
  have hsw : s.Continues w := Continues.after (by simp [Request.Lawful])
  have hwt : w.Continues t := Continues.after (by simp [Request.Lawful])
  have hopened : (s.opened.map fun o => o.literals.find? 2) = some (some 9) := by decide +kernel
  have hreopened : (t.opened.map fun o => o.literals.find? 2) = some (some 13) := by decide +kernel
  have hclosed : w.opened = none := Option.isNone_iff_eq_none.1 (by decide +kernel)
  obtain ⟨o, ho, hliteral⟩ := Option.map_eq_some_iff.1 hopened
  obtain ⟨o', ho', hliteral'⟩ := Option.map_eq_some_iff.1 hreopened
  obtain ⟨haccounted, hapart⟩ := Arises.accounted (hs.trans (hsw.trans hwt))
  refine ⟨s, w, t, hs, hsw, hclosed, hwt, hopened, hreopened, ?_, ?_, haccounted, ?_⟩
  · decide +kernel
  · decide +kernel
  · exact hapart s w hs hsw hclosed hwt o o' ho ho' 2 2 9 13 hliteral hliteral'

end Session

end CheckedPointers
