import CheckedPointers.Proofs.Variable.Coincidence
import Mathlib.Data.List.Forall2

/-!
Variables that are equated in a row, each with the next one. The first and the last of them need not
come to coincide: what the two have in common may be more than what one between them has. They do if
the row bridges them, that is if every variable between has as much.
-/
namespace CheckedPointers

/-- What is seen of the members of a chain makes a chain, if it is related wherever they are. -/
theorem isChain_of_seen {α β : Type} {r : α → α → Prop} {r' : β → β → Prop} {sees : α → β → Prop}
    (hseen : ∀ a b x y, r a b → sees a x → sees b y → r' x y) {l : List α} {l' : List β}
    (h : l.IsChain r) (hl : List.Forall₂ sees l l') : l'.IsChain r' := by
  induction hl with
  | nil => exact List.isChain_nil
  | cons hx hrest ih =>
    cases hrest with
    | nil => exact List.isChain_singleton _
    | cons hy _ =>
      obtain ⟨hab, h⟩ := List.isChain_cons_cons.1 h
      exact List.isChain_cons_cons.2 ⟨hseen _ _ _ _ hab hx hy, ih h⟩

theorem exists_forall₂ {α β : Type} {sees : α → β → Prop} {l : List α}
    (h : ∀ a ∈ l, ∃ x, sees a x) : ∃ l', List.Forall₂ sees l l' := by
  induction l with
  | nil => exact ⟨[], .nil⟩
  | cons a rest ih =>
    obtain ⟨⟨x, hx⟩, hrest⟩ := List.forall_mem_cons.1 h
    obtain ⟨xs, hxs⟩ := ih hrest
    exact ⟨x :: xs, .cons hx hxs⟩

namespace Arena

variable {arena : Arena} {same : Atom → Atom → Prop} {a b v x y : VarId} {i k m n : Nat}
  {e : Atom × Atom} {l : List (Atom × Atom)}

/-! ## What coincides has no equations left -/

def HoldsOf (arena : Arena) (same : Atom → Atom → Prop)
    (eqs : VarId → VarId → Option (List (Atom × Atom))) : Prop :=
  ∀ {a b : VarId} {l : List (Atom × Atom)}, eqs a b = some l → arena.Coincide same a b →
    ∀ e ∈ l, same e.1 e.2

namespace HoldsOf

variable {eqs : VarId → VarId → Option (List (Atom × Atom))} {p q : PointerVariable}
  {f g : FunctionVariable}

theorem cross (heqs : arena.HoldsOf same eqs) {s t : VarSet} (h : crossWith eqs s t = some l)
    (hst : ∀ x ∈ s, ∀ y ∈ t, arena.Coincide same x y) (he : e ∈ l) : same e.1 e.2 := by
  obtain ⟨x, hx, y, hy, l', hl', he⟩ := exists_of_crossWith h he
  exact heqs hl' (hst x hx y hy) e he

/-! One step of the walk, for each pair of kinds. -/

/-- Two pointers: their levels, and the functions that they lead to by the induction. -/
theorem pointers (heqs : arena.HoldsOf same (arena.equationsWithin n)) (hsame : Equivalence same)
    (hab : a ≠ b) (hp : arena.pointer? a = some p) (hq : arena.pointer? b = some q)
    (h : arena.equationsWithin (n + 1) a b = some l) (hco : arena.Coincide same a b) :
    ∀ e ∈ l, same e.1 e.2 := by
  have hlevels : ∀ e ∈ p.atoms.zip q.atoms, same e.1 e.2 := by
    intro e he
    obtain ⟨i, hi⟩ := List.mem_iff_getElem?.1 he
    obtain ⟨hx, hy⟩ := List.getElem?_zip_eq_some.1 hi
    exact hco.levels hsame hp hq hx hy
  by_cases hnone : p.function = none ∨ q.function = none
  · rw [equationsWithin_pointers hab hp hq hnone] at h
    obtain rfl := Option.some.inj h
    exact hlevels
  · obtain ⟨hpf, hqf⟩ := not_or.1 hnone
    obtain ⟨f, hf⟩ := Option.ne_none_iff_exists'.1 hpf
    obtain ⟨g, hg⟩ := Option.ne_none_iff_exists'.1 hqf
    rw [equationsWithin_attached hab hp hq hf hg] at h
    obtain ⟨below, hbelow, rfl⟩ := Option.map_eq_some_iff.1 h
    intro e he
    rcases List.mem_append.1 he with he | he
    · exact hlevels e he
    · exact heqs hbelow (hco.attached hp hq hf hg) e he

/-- A pointer and a function. -/
theorem mixed (heqs : arena.HoldsOf same (arena.equationsWithin n)) (hab : a ≠ b)
    (hp : arena.pointer? a = some p) (hg : arena.function? b = some g)
    (h : arena.equationsWithin (n + 1) a b = some l) (hco : arena.Coincide same a b) :
    ∀ e ∈ l, same e.1 e.2 := by
  cases hf : p.function with
  | none =>
    rw [equationsWithin_returned hab hp hg hf] at h
    refine fun e he => heqs.cross h (fun x hx y hy => ?_) he
    obtain rfl := (VarSet.mem_singleton a x).1 hx
    exact hco.ofReturned.1 p g hp hf hg y hy
  | some f =>
    rw [equationsWithin_pointed hab hp hg hf] at h
    exact heqs h (hco.ofPointed.1 p f hp hf (isFunction_iff.2 ⟨g, hg⟩))

/-- Two functions: returns, and as many parameters. -/
theorem functions (heqs : arena.HoldsOf same (arena.equationsWithin n)) (hwf : arena.WellFormed k)
    (hab : a ≠ b) (hf : arena.function? a = some f) (hg : arena.function? b = some g)
    (h : arena.equationsWithin (n + 1) a b = some l) (hco : arena.Coincide same a b) :
    ∀ e ∈ l, same e.1 e.2 := by
  have hreturns : ∀ x ∈ f.returns, ∀ y ∈ g.returns, arena.Coincide same x y :=
    hco.slot (i := 0) hwf hf hg (.inl rfl) rfl rfl
  by_cases hlen : f.params.length = g.params.length
  · rw [equationsWithin_functions hab hf hg hlen] at h
    obtain ⟨returns, hret, h⟩ := Option.bind_eq_some_iff.1 h
    obtain ⟨params, hparams, h⟩ := Option.bind_eq_some_iff.1 h
    obtain rfl := Option.some.inj h
    intro e he
    rcases List.mem_append.1 he with he | he
    · exact heqs.cross hret hreturns he
    · obtain ⟨l', hl', he⟩ := List.mem_flatten.1 he
      obtain ⟨slots, hmem, hcross⟩ := mem_of_mapM hparams hl'
      obtain ⟨i, hi⟩ := List.mem_iff_getElem?.1 hmem
      obtain ⟨hs, ht⟩ := List.getElem?_zip_eq_some.1 hi
      exact heqs.cross hcross (hco.slots (i := i + 1) hwf hf hg hlen hs ht) he
  · rw [equationsWithin_uneven hab hf hg hlen] at h
    exact fun e he => heqs.cross h hreturns he

end HoldsOf

/-- Equations hold of variables that coincide, however deep the walk goes. -/
theorem WellFormed.holdsOf (hwf : arena.WellFormed n) (hsame : Equivalence same) (k : Nat) :
    arena.HoldsOf same (arena.equationsWithin k) := by
  induction k with
  | zero => exact fun h => nomatch h
  | succ k ih =>
    intro a b l h hco
    by_cases hab : a = b
    · subst hab
      obtain rfl : [] = l := by simpa [equationsWithin] using h
      exact fun e he => absurd he List.not_mem_nil
    obtain ⟨ha, hb⟩ := sizes_of_equationsWithin hab h
    rcases pointer_or_function ha with ⟨p, -, hp⟩ | ⟨f, -, hf⟩
    · rcases pointer_or_function hb with ⟨q, -, hq⟩ | ⟨g, -, hg⟩
      · exact ih.pointers hsame hab hp hq h hco
      · exact ih.mixed hab hp hg h hco
    · rcases pointer_or_function hb with ⟨q, -, hq⟩ | ⟨g, -, hg⟩
      · rw [equationsWithin_comm hq hf] at h
        exact ih.mixed (Ne.symm hab) hq hf h hco.symm
      · exact ih.functions hwf hab hf hg h hco

/-! ## What variables are seen as -/

/-- A slot of a function, the first one or any slot if it lists `n` parameters. -/
def InSlot (arena : Arena) (n i : Nat) (v x : VarId) : Prop :=
  ∃ f slot, arena.function? v = some f ∧ (i = 0 ∨ f.params.length = n) ∧ f.slots[i]? = some slot ∧
    x ∈ slot

def Value (arena : Arena) (v x : VarId) : Prop :=
  (∃ p, arena.pointer? v = some p ∧ p.function = none ∧ x = v) ∨
    ∃ f, arena.function? v = some f ∧ x ∈ f.returns

def Plain (arena : Arena) (v : VarId) : Prop :=
  (∃ p, arena.pointer? v = some p ∧ p.function = none) ∨ ∃ f, arena.function? v = some f

theorem reachable?_of_pointer? {p : PointerVariable} (hp : arena.pointer? v = some p) :
    arena.reachable? v = p.function := by simp [reachable?, getElem?_of_pointer? hp]

theorem reachable?_cases (h : arena.reachable? v = some x) :
    (∃ p, arena.pointer? v = some p ∧ p.function = some x) ∨ (arena.isFunction v ∧ x = v) := by
  obtain ⟨y, hy, hreach⟩ := Option.bind_eq_some_iff.1 h
  cases y with
  | pointer p => exact .inl ⟨p, pointer?_of_getElem? hy, hreach⟩
  | function f =>
    exact .inr ⟨isFunction_iff.2 ⟨f, function?_of_getElem? hy⟩, (Option.some.inj hreach).symm⟩

/-- Variables that coincide denote functions that do. -/
theorem Coincide.reachable (h : arena.Coincide same a b) (hx : arena.reachable? a = some x)
    (hy : arena.reachable? b = some y) : arena.Coincide same x y := by
  rcases reachable?_cases hx with ⟨p, hp, hpx⟩ | ⟨ha, rfl⟩ <;>
  rcases reachable?_cases hy with ⟨q, hq, hqy⟩ | ⟨hb, rfl⟩
  · exact h.attached hp hq hpx hqy
  · exact h.ofPointed.1 p x hp hpx hb
  · exact .symm (h.ofPointed.2 q y hq hqy ha)
  · exact h

theorem Coincide.inSlot (h : arena.Coincide same a b) (hwf : arena.WellFormed k)
    (hx : arena.InSlot n i a x) (hy : arena.InSlot n i b y) : arena.Coincide same x y := by
  obtain ⟨f, slot, hf, hi, hslot, hx⟩ := hx
  obtain ⟨g, slot', hg, hi', hslot', hy⟩ := hy
  have hmeet : i = 0 ∨ f.params.length = g.params.length := by
    rcases hi with hi | hf
    · exact .inl hi
    · exact hi'.imp_right fun hg => hf.trans hg.symm
  exact h.slot hwf hf hg hmeet hslot hslot' x hx y hy

/-- Variables that coincide have values that do. -/
theorem Coincide.value (h : arena.Coincide same a b) (hwf : arena.WellFormed k)
    (hx : arena.Value a x) (hy : arena.Value b y) : arena.Coincide same x y := by
  rcases hx with ⟨p, hp, hnone, rfl⟩ | ⟨f, hf, hx⟩ <;>
  rcases hy with ⟨q, hq, hnone', rfl⟩ | ⟨g, hg, hy⟩
  · exact h
  · exact h.ofReturned.1 p g hp hnone hg y hy
  · exact .symm (h.ofReturned.2 q f hq hnone' hf x hx)
  · exact h.slot hwf hf hg (i := 0) (.inl rfl) rfl rfl x hx y hy

/-! ## Rows -/

/-- Whatever two variables have in common, those between have as well. -/
inductive Bridged (arena : Arena) : VarId → List VarId → VarId → Prop where
  /-- Between pointers are pointers with all levels that the two have, and with functions. -/
  | pointers {a b : VarId} {between functions : List VarId} {p q : PointerVariable}
      (hp : arena.pointer? a = some p) (hq : arena.pointer? b = some q)
      (levels : ∀ c ∈ between, ∃ r, arena.pointer? c = some r ∧
        min p.atoms.length q.atoms.length ≤ r.atoms.length)
      (attached : ∀ f g, p.function = some f → q.function = some g →
        List.Forall₂ (fun c h => arena.reachable? c = some h) between functions)
      (below : ∀ f g, p.function = some f → q.function = some g → Bridged arena f functions g) :
      Bridged arena a between b
  /-- Between functions are functions that return something if the two do, and that list as many
  parameters as the two if these list equally many. -/
  | functions {a b : VarId} {between : List VarId} {f g : FunctionVariable}
      (slots : Nat → List VarId) (hf : arena.function? a = some f) (hg : arena.function? b = some g)
      (seen : ∀ i x y, arena.InSlot f.params.length i a x → arena.InSlot f.params.length i b y →
        List.Forall₂ (arena.InSlot f.params.length i) between (slots i))
      (below : ∀ i x y, arena.InSlot f.params.length i a x → arena.InSlot f.params.length i b y →
        Bridged arena x (slots i) y) : Bridged arena a between b
  /-- Where one of the two is a function and the other denotes one, those between denote some. -/
  | pointed {a b f g : VarId} {between functions : List VarId}
      (hab : arena.isFunction a ∨ arena.isFunction b) (ha : arena.reachable? a = some f)
      (hb : arena.reachable? b = some g)
      (seen : List.Forall₂ (fun c h => arena.reachable? c = some h) between functions)
      (below : Bridged arena f functions g) : Bridged arena a between b
  /-- Where neither points to a function, and one is a pointer, those between have values. -/
  | values {a b : VarId} {between values : List VarId}
      (hab : arena.isPointer a ∨ arena.isPointer b) (ha : arena.Plain a) (hb : arena.Plain b)
      (seen : ∀ x y, arena.Value a x → arena.Value b y →
        List.Forall₂ arena.Value between values)
      (below : ∀ x y, arena.Value a x → arena.Value b y → Bridged arena x values y) :
      Bridged arena a between b

def Row (arena : Arena) (same : Atom → Atom → Prop) (a : VarId) (between : List VarId)
    (b : VarId) : Prop := (a :: (between ++ [b])).IsChain (arena.Coincide same)

variable {between parts : List VarId} {p q : PointerVariable}

/-- What is seen of the members of a row is a row. -/
theorem Row.seen {sees : VarId → VarId → Prop} (h : arena.Row same a between b)
    (hco : ∀ c d x y, arena.Coincide same c d → sees c x → sees d y → arena.Coincide same x y)
    (ha : sees a x) (hparts : List.Forall₂ sees between parts) (hb : sees b y) :
    arena.Row same x parts y :=
  isChain_of_seen hco h (.cons ha (List.rel_append hparts (.cons hb .nil)))

/-- In a row of pointers of so many levels all of these agree. -/
theorem Row.levels (h : arena.Row same a between b) (hsame : Equivalence same)
    (hp : arena.pointer? a = some p) (hq : arena.pointer? b = some q)
    (hlong : ∀ c ∈ between, ∃ r, arena.pointer? c = some r ∧
      min p.atoms.length q.atoms.length ≤ r.atoms.length) :
    ∀ e ∈ p.atoms.zip q.atoms, same e.1 e.2 := by
  intro e he
  obtain ⟨i, hi⟩ := List.mem_iff_getElem?.1 he
  obtain ⟨hx, hy⟩ := List.getElem?_zip_eq_some.1 hi
  let sees : VarId → Atom → Prop := fun c x => ∃ r, arena.pointer? c = some r ∧ r.atoms[i]? = some x
  have hco : ∀ c d x y, arena.Coincide same c d → sees c x → sees d y → same x y :=
    fun _ _ _ _ h ⟨_, hc, hx⟩ ⟨_, hd, hy⟩ => h.levels hsame hc hd hx hy
  have hsees : ∀ c ∈ between, ∃ x, sees c x := by
    intro c hc
    obtain ⟨r, hr, hlen⟩ := hlong c hc
    have hip := (List.getElem?_eq_some_iff.1 hx).1
    have hiq := (List.getElem?_eq_some_iff.1 hy).1
    have hir : i < r.atoms.length := by omega
    exact ⟨_, r, hr, List.getElem?_eq_getElem hir⟩
  obtain ⟨xs, hxs⟩ := exists_forall₂ hsees
  have hends := List.Forall₂.cons ⟨p, hp, hx⟩ (List.rel_append hxs (.cons ⟨q, hq, hy⟩ .nil))
  exact rel_of_isChain hsame (isChain_of_seen hco h hends) List.mem_cons_self (by simp)

/-- The ends of a row coincide if it bridges them. -/
theorem Bridged.coincide (h : arena.Bridged a between b) (hwf : arena.WellFormed n)
    (hsame : Equivalence same) (hrow : arena.Row same a between b) : arena.Coincide same a b := by
  have clash {v : VarId} {p : PointerVariable} (hp : arena.pointer? v = some p)
      (hv : arena.isFunction v) : False := not_isFunction (isPointer_iff.2 ⟨p, hp⟩) hv
  induction h with
  | pointers hp hq levels attached _ ih =>
    refine .pointers hp hq (hrow.levels hsame hp hq levels) fun f g hf hg => ?_
    have hx := (reachable?_of_pointer? hp).trans hf
    have hy := (reachable?_of_pointer? hq).trans hg
    exact ih f g hf hg (hrow.seen (fun _ _ _ _ => .reachable) hx (attached f g hf hg) hy)
  | @functions a b _ f g slots hf hg seen _ ih =>
    have hslots : ∀ i x y, arena.InSlot f.params.length i a x →
        arena.InSlot f.params.length i b y → arena.Coincide same x y := fun i x y hx hy =>
      ih i x y hx hy (hrow.seen (fun _ _ _ _ h => h.inSlot hwf) hx (seen i x y hx hy) hy)
    refine .functions hf hg (fun x hx y hy => ?_) fun hlen e he x hx y hy => ?_
    · exact hslots 0 x y ⟨f, _, hf, .inl rfl, rfl, hx⟩ ⟨g, _, hg, .inl rfl, rfl, hy⟩
    · obtain ⟨i, hi⟩ := List.mem_iff_getElem?.1 he
      obtain ⟨hs, ht⟩ := List.getElem?_zip_eq_some.1 hi
      exact hslots (i + 1) x y ⟨f, _, hf, .inr rfl, hs, hx⟩ ⟨g, _, hg, .inr hlen.symm, ht, hy⟩
  | pointed hab ha hb seen _ ih =>
    have hco := ih (hrow.seen (fun _ _ _ _ => .reachable) ha seen hb)
    rcases reachable?_cases ha with ⟨p, hp, hpf⟩ | ⟨hfun, rfl⟩ <;>
    rcases reachable?_cases hb with ⟨q, hq, hqg⟩ | ⟨hfun', rfl⟩
    · exact (hab.elim (clash hp) (clash hq)).elim
    · exact .pointed hp hpf hfun' hco
    · exact .symm (.pointed hq hqg hfun hco.symm)
    · exact hco
  | @values a b _ values hab ha hb seen _ ih =>
    have hvalues : ∀ x y, arena.Value a x → arena.Value b y → arena.Coincide same x y :=
      fun x y hx hy => ih x y hx hy
        (hrow.seen (fun _ _ _ _ h => h.value hwf) hx (seen x y hx hy) hy)
    rcases ha with ⟨p, hp, hnone⟩ | ⟨f, hf⟩ <;> rcases hb with ⟨q, hq, hnone'⟩ | ⟨g, hg⟩
    · exact hvalues a b (.inl ⟨p, hp, hnone, rfl⟩) (.inl ⟨q, hq, hnone', rfl⟩)
    · refine .returned hp hnone hg fun r hr => ?_
      exact hvalues a r (.inl ⟨p, hp, hnone, rfl⟩) (.inr ⟨g, hg, hr⟩)
    · refine .symm (.returned hq hnone' hf fun r hr => ?_)
      exact .symm (hvalues r b (.inr ⟨f, hf, hr⟩) (.inl ⟨q, hq, hnone', rfl⟩))
    · have hfun := isFunction_iff.2 ⟨f, hf⟩
      have hfun' := isFunction_iff.2 ⟨g, hg⟩
      exact (hab.elim (not_isFunction · hfun) (not_isFunction · hfun')).elim

end Arena

end CheckedPointers
