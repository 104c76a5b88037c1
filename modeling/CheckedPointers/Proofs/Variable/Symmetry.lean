import CheckedPointers.Proofs.Variable.Coincidence
import Mathlib.Data.List.Zip

/-!
Equating two variables is symmetric. Either order finds the same equations but for the side on which
an atom stands; and what is had in common can be read off the two variables, kind by kind.
-/
namespace CheckedPointers

namespace Arena

variable {arena : Arena} {same : Atom → Atom → Prop} {n k a b v : Nat} {p q : PointerVariable}
  {f g : FunctionVariable}

/-! ## Equations in either order -/

def Among (l : List (Atom × Atom)) (e : Atom × Atom) : Prop := e ∈ l ∨ e.swap ∈ l

/-- Every equation of two variables is one of the same variables in the other order. -/
def MirrorsWithin (eqs : VarId → VarId → Option (List (Atom × Atom))) : Prop :=
  ∀ {a b : VarId} {l l' : List (Atom × Atom)}, eqs a b = some l → eqs b a = some l' →
    ∀ e ∈ l, Among l' e

theorem Among.mono {l l' : List (Atom × Atom)} {e : Atom × Atom} (h : Among l e) (hsub : l ⊆ l') :
    Among l' e := h.imp (@hsub _) (@hsub _)

theorem swap_mem_zip {α : Type} {l l' : List α} {e : α × α} (h : e ∈ l.zip l') :
    e.swap ∈ l'.zip l := by
  rw [← List.zip_swap l l']
  exact List.mem_map_of_mem h

/-- What is gathered for a member of a list is part of all that is gathered. -/
theorem subset_of_mapM {α β : Type} {eqs : α → Option (List β)} {l : List α} {ls : List (List β)}
    {c : α} (h : l.mapM eqs = some ls) (hc : c ∈ l) : ∃ m, eqs c = some m ∧ m ⊆ ls.flatten := by
  obtain ⟨m, hm, heqs⟩ := exists_of_mapM h hc
  exact ⟨m, heqs, fun _ he => List.mem_flatten.2 ⟨m, hm, he⟩⟩

namespace MirrorsWithin

variable {eqs : VarId → VarId → Option (List (Atom × Atom))}

/-- Equations of two sets are those of the swapped sets, turned around. -/
theorem cross (heqs : MirrorsWithin eqs) {s t : VarSet} {l l' : List (Atom × Atom)}
    (h : crossWith eqs s t = some l) (h' : crossWith eqs t s = some l') : ∀ e ∈ l, Among l' e := by
  intro e he
  obtain ⟨owed, howed, h⟩ := Option.bind_eq_some_iff.1 h
  obtain ⟨owed', howed', h'⟩ := Option.bind_eq_some_iff.1 h'
  obtain rfl := Option.some.inj h
  obtain rfl := Option.some.inj h'
  obtain ⟨m, hm, he⟩ := List.mem_flatten.1 he
  obtain ⟨⟨x, y⟩, hxy, hm⟩ := mem_of_mapM howed hm
  obtain ⟨x', hx, hxy⟩ := List.mem_flatMap.1 hxy
  obtain ⟨y', hy, hpair⟩ := List.mem_map.1 hxy
  obtain ⟨rfl, rfl⟩ := Prod.mk.inj hpair
  have hyx : (y', x') ∈ t.members.flatMap fun y => s.members.map (y, ·) :=
    List.mem_flatMap.2 ⟨y', hy, List.mem_map.2 ⟨x', hx, rfl⟩⟩
  obtain ⟨m', hm', hsub⟩ := subset_of_mapM howed' hyx
  exact (heqs hm hm' e he).mono hsub

theorem slots (heqs : MirrorsWithin eqs) {ss ts : List VarSet} {ls ls' : List (List (Atom × Atom))}
    (h : (ss.zip ts).mapM (fun e => crossWith eqs e.1 e.2) = some ls)
    (h' : (ts.zip ss).mapM (fun e => crossWith eqs e.1 e.2) = some ls') :
    ∀ e ∈ ls.flatten, Among ls'.flatten e := by
  intro e he
  obtain ⟨m, hm, he⟩ := List.mem_flatten.1 he
  obtain ⟨⟨s, t⟩, hst, hm⟩ := mem_of_mapM h hm
  obtain ⟨m', hm', hsub⟩ := subset_of_mapM h' (swap_mem_zip hst)
  exact (heqs.cross hm hm' e he).mono hsub

/-! One step of the walk, for each pair of kinds. -/

/-- Two pointers: level by level, and below by the induction. -/
theorem pointers (heqs : MirrorsWithin (arena.equationsWithin k)) (hab : a ≠ b)
    (hp : arena.pointer? a = some p) (hq : arena.pointer? b = some q) {l l' : List (Atom × Atom)}
    (h : arena.equationsWithin (k + 1) a b = some l)
    (h' : arena.equationsWithin (k + 1) b a = some l') : ∀ e ∈ l, Among l' e := by
  have hlevels : ∀ e ∈ p.atoms.zip q.atoms, Among (q.atoms.zip p.atoms) e :=
    fun e he => .inr (swap_mem_zip he)
  by_cases hnone : p.function = none ∨ q.function = none
  · rw [equationsWithin_pointers hab hp hq hnone] at h
    rw [equationsWithin_pointers hab.symm hq hp hnone.symm] at h'
    obtain rfl := Option.some.inj h
    obtain rfl := Option.some.inj h'
    exact hlevels
  · obtain ⟨hpf, hqf⟩ := not_or.1 hnone
    obtain ⟨x, hx⟩ := Option.ne_none_iff_exists'.1 hpf
    obtain ⟨y, hy⟩ := Option.ne_none_iff_exists'.1 hqf
    rw [equationsWithin_attached hab hp hq hx hy] at h
    rw [equationsWithin_attached hab.symm hq hp hy hx] at h'
    obtain ⟨below, hbelow, rfl⟩ := Option.map_eq_some_iff.1 h
    obtain ⟨below', hbelow', rfl⟩ := Option.map_eq_some_iff.1 h'
    intro e he
    rcases List.mem_append.1 he with he | he
    · exact (hlevels e he).mono (List.subset_append_left _ _)
    · exact (heqs hbelow hbelow' e he).mono (List.subset_append_right _ _)

/-- Two functions: returns with returns, and parameters in order. -/
theorem functions (heqs : MirrorsWithin (arena.equationsWithin k)) (hab : a ≠ b)
    (hf : arena.function? a = some f) (hg : arena.function? b = some g) {l l' : List (Atom × Atom)}
    (h : arena.equationsWithin (k + 1) a b = some l)
    (h' : arena.equationsWithin (k + 1) b a = some l') : ∀ e ∈ l, Among l' e := by
  by_cases hlen : f.params.length = g.params.length
  · rw [equationsWithin_functions hab hf hg hlen] at h
    rw [equationsWithin_functions hab.symm hg hf hlen.symm] at h'
    obtain ⟨returns, hreturns, h⟩ := Option.bind_eq_some_iff.1 h
    obtain ⟨returns', hreturns', h'⟩ := Option.bind_eq_some_iff.1 h'
    obtain ⟨params, hparams, h⟩ := Option.bind_eq_some_iff.1 h
    obtain ⟨params', hparams', h'⟩ := Option.bind_eq_some_iff.1 h'
    obtain rfl := Option.some.inj h
    obtain rfl := Option.some.inj h'
    intro e he
    rcases List.mem_append.1 he with he | he
    · exact (heqs.cross hreturns hreturns' e he).mono (List.subset_append_left _ _)
    · exact (heqs.slots hparams hparams' e he).mono (List.subset_append_right _ _)
  · rw [equationsWithin_uneven hab hf hg hlen] at h
    rw [equationsWithin_uneven hab.symm hg hf (Ne.symm hlen)] at h'
    exact heqs.cross h h'

end MirrorsWithin

/-- The walk finds the same equations in either order, but for their sides. -/
theorem mirrorsWithin (k : Nat) : MirrorsWithin (arena.equationsWithin k) := by
  induction k with
  | zero => exact fun h => nomatch h
  | succ k ih =>
    intro a b l l' h h'
    by_cases hab : a = b
    · obtain rfl := hab
      obtain rfl := Option.some.inj (h.symm.trans h')
      exact fun e he => .inl he
    obtain ⟨ha, hb⟩ := sizes_of_equationsWithin hab h
    rcases pointer_or_function ha with ⟨p, -, hp⟩ | ⟨f, -, hf⟩
    · rcases pointer_or_function hb with ⟨q, -, hq⟩ | ⟨g, -, hg⟩
      · exact ih.pointers hab hp hq h h'
      · rw [equationsWithin_comm hp hg] at h'
        obtain rfl := Option.some.inj (h.symm.trans h')
        exact fun e he => .inl he
    · rcases pointer_or_function hb with ⟨q, -, hq⟩ | ⟨g, -, hg⟩
      · rw [equationsWithin_comm hq hf] at h
        obtain rfl := Option.some.inj (h.symm.trans h')
        exact fun e he => .inl he
      · exact ih.functions hab hf hg h h'

theorem equations_mirror {l l' : List (Atom × Atom)} (h : arena.equations? a b = some l)
    (h' : arena.equations? b a = some l') : ∀ e ∈ l, Among l' e := by
  rw [equations?, Nat.add_comm b a] at h'
  exact mirrorsWithin (a + b + 1) h h'

/-! ## Agreement -/

/-- What two variables have in common, kind by kind and down to levels: pointers every level that
both have and the functions that they lead to, functions their returns and with as many parameters
those one by one, and a pointer and a function the function that the pointer leads to, or else the
pointer and the returns. -/
inductive Concur (arena : Arena) (same : Atom → Atom → Prop) : VarId → VarId → Prop where
  | pointers {a b : VarId} {p q : PointerVariable} (hp : arena.pointer? a = some p)
    (hq : arena.pointer? b = some q)
    (levels : ∀ (i : Nat) (x y : Atom), p.atoms[i]? = some x → q.atoms[i]? = some y → same x y)
    (attached : ∀ f g, p.function = some f → q.function = some g → Concur arena same f g) :
    Concur arena same a b
  | functions {a b : VarId} {f g : FunctionVariable} (hf : arena.function? a = some f)
    (hg : arena.function? b = some g)
    (returns : ∀ x ∈ f.returns, ∀ y ∈ g.returns, Concur arena same x y)
    (params : f.params.length = g.params.length → ∀ (i : Nat) (s t : VarSet),
      f.params[i]? = some s → g.params[i]? = some t → ∀ x ∈ s, ∀ y ∈ t, Concur arena same x y) :
    Concur arena same a b
  | pointed {a b x : VarId} {p : PointerVariable} {g : FunctionVariable}
    (hp : arena.pointer? a = some p) (hx : p.function = some x) (hg : arena.function? b = some g)
    (h : Concur arena same x b) : Concur arena same a b
  | returned {a b : VarId} {p : PointerVariable} {g : FunctionVariable}
    (hp : arena.pointer? a = some p) (hnone : p.function = none) (hg : arena.function? b = some g)
    (h : ∀ r ∈ g.returns, Concur arena same a r) : Concur arena same a b
  | pointedAt {a b x : VarId} {f : FunctionVariable} {q : PointerVariable}
    (hf : arena.function? a = some f) (hq : arena.pointer? b = some q) (hx : q.function = some x)
    (h : Concur arena same x a) : Concur arena same a b
  | returnedTo {a b : VarId} {f : FunctionVariable} {q : PointerVariable}
    (hf : arena.function? a = some f) (hq : arena.pointer? b = some q) (hnone : q.function = none)
    (h : ∀ r ∈ f.returns, Concur arena same b r) : Concur arena same a b

/-- Each case turned around is a case of its own. -/
theorem Concur.symm (hsame : ∀ {x y}, same x y → same y x) (h : arena.Concur same a b) :
    arena.Concur same b a := by
  induction h with
  | pointers hp hq levels _ ih =>
    exact .pointers hq hp (fun i x y hx hy => hsame (levels i y x hy hx))
      fun f g hf hg => ih g f hg hf
  | functions hf hg _ _ returns params =>
    exact .functions hg hf (fun x hx y hy => returns y hy x hx)
      fun hlen i s t hs ht x hx y hy => params hlen.symm i t s ht hs y hy x hx
  | pointed hp hx hg h _ => exact .pointedAt hg hp hx h
  | returned hp hnone hg h _ => exact .returnedTo hg hp hnone h
  | pointedAt hf hq hx h _ => exact .pointed hq hx hf h
  | returnedTo hf hq hnone h _ => exact .returned hq hnone hf h

/-- A slot holds one variable at most, which is older than the function. -/
theorem WellFormed.slot_unique (h : arena.WellFormed n) (hf : arena.function? v = some f)
    {slot : VarSet} (hslot : slot ∈ f.slots) {x y : VarId} (hx : x ∈ slot) (hy : y ∈ slot) :
    x = y := by
  rcases h.slots hf hslot with rfl | ⟨w, rfl, -⟩
  · exact absurd hx (VarSet.not_mem_empty x)
  · rw [(VarSet.mem_singleton w x).1 hx, (VarSet.mem_singleton w y).1 hy]

/-- By induction on ids, since variables name older ones. -/
theorem WellFormed.concur_self (h : arena.WellFormed n) (hrefl : ∀ x, same x x)
    (hv : v < arena.size) : arena.Concur same v v := by
  induction v using Nat.strongRecOn with
  | ind v ih =>
    rcases pointer_or_function hv with ⟨p, -, hp⟩ | ⟨f, -, hf⟩
    · refine .pointers hp hp (fun i x y hx hy => ?_) fun x y hx hy => ?_
      · exact Option.some.inj (hx.symm.trans hy) ▸ hrefl x
      · obtain rfl := Option.some.inj (hx.symm.trans hy)
        obtain ⟨hlt, hfun⟩ := h.attached hp hx
        exact ih x hlt (lt_of_isFunction hfun)
    · have hslot : ∀ slot ∈ f.slots, ∀ x ∈ slot, ∀ y ∈ slot, arena.Concur same x y := by
        intro slot hslot x hx y hy
        obtain rfl := h.slot_unique hf hslot hx hy
        obtain ⟨hlt, hsize⟩ := h.slot_lt hf hslot hx
        exact ih x hlt hsize
      refine .functions hf hf (hslot f.returns List.mem_cons_self) fun _ i s t hs ht => ?_
      obtain rfl := Option.some.inj (hs.symm.trans ht)
      exact hslot s (List.mem_cons_of_mem _ (List.mem_of_getElem? hs))

/-- Variables that coincide agree. -/
theorem Coincide.concur (h : arena.Coincide same a b) (hwf : arena.WellFormed n)
    (hsame : Equivalence same) (ha : a < arena.size) (hb : b < arena.size) :
    arena.Concur same a b := by
  induction h with
  | refl => exact hwf.concur_self hsame.refl ha
  | symm _ ih => exact (ih hb ha).symm hsame.symm
  | @pointers a b p q hp hq levels _ ih =>
    refine .pointers hp hq (fun i x y hx hy => ?_) fun f g hf hg => ?_
    · apply levels (x, y)
      apply List.mem_of_getElem? (i := i)
      rw [List.getElem?_zip_eq_some]
      exact ⟨hx, hy⟩
    · exact ih f g hf hg (lt_of_isFunction (hwf.attached hp hf).2)
        (lt_of_isFunction (hwf.attached hq hg).2)
  | @functions a b f g hf hg _ _ returns params =>
    refine .functions hf hg (fun x hx y hy => ?_) fun hlen i s t hs ht x hx y hy => ?_
    · exact returns x hx y hy (hwf.slot_lt hf List.mem_cons_self hx).2
        (hwf.slot_lt hg List.mem_cons_self hy).2
    · have hst : (s, t) ∈ f.params.zip g.params := by
        apply List.mem_of_getElem? (i := i)
        rw [List.getElem?_zip_eq_some]
        exact ⟨hs, ht⟩
      have hsf : s ∈ f.slots := List.mem_cons_of_mem _ (List.mem_of_getElem? hs)
      have htg : t ∈ g.slots := List.mem_cons_of_mem _ (List.mem_of_getElem? ht)
      exact params hlen (s, t) hst x hx y hy (hwf.slot_lt hf hsf hx).2 (hwf.slot_lt hg htg hy).2
  | pointed hp hf hbf _ ih =>
    obtain ⟨g, hg⟩ := isFunction_iff.1 hbf
    exact .pointed hp hf hg (ih (lt_of_isFunction (hwf.attached hp hf).2) hb)
  | returned hp hnone hg _ ih =>
    exact .returned hp hnone hg fun r hr => ih r hr ha (hwf.slot_lt hg List.mem_cons_self hr).2

end Arena

end CheckedPointers
