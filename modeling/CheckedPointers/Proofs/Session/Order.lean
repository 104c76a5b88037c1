import CheckedPointers.Proofs.Session.Below

/-!
The order of variables. Every variable names older ones only, so nothing owns itself, and the walks
that collect atoms, equations and reports come to their ends in every session that arises.
-/
namespace CheckedPointers

open Op

namespace Arena

variable {arena : Arena} {v w : VarId} {n : Nat}

/-- One variable stands inside another: as the function that a pointer leads to, or as a return or
a parameter of a function. -/
inductive Names (arena : Arena) (v w : VarId) : Prop where
  | leads {p : PointerVariable} (hp : arena.pointer? v = some p) (hw : p.function = some w)
  | slot {f : FunctionVariable} {slot : VarSet} (hf : arena.function? v = some f)
      (hslot : slot ∈ f.slots) (hw : w ∈ slot)

theorem WellFormed.lt_of_names (h : arena.WellFormed n) (hvw : arena.Names v w) : w < v := by
  cases hvw with
  | leads hp hw => exact (h.attached hp hw).1
  | slot hf hslot hw => exact (h.slot_lt hf hslot hw).1

theorem WellFormed.lt_of_transGen (h : arena.WellFormed n)
    (hvw : Relation.TransGen arena.Names v w) : w < v := by
  induction hvw with
  | single hvw => exact h.lt_of_names hvw
  | tail _ hlast ih => exact Nat.lt_trans (h.lt_of_names hlast) ih

end Arena

namespace Session

variable {s t : Session} {options : Options}

/-- Besides being well formed: the variables whose dereference is remembered are there, variables
name older ones only and so none names itself by a detour, and the walks from a variable that is
there end at atoms that are there. -/
structure Orderly (s : Session) : Prop extends WellFormed s where
  memo : ∀ e ∈ s.pointees.entries, e.1 < s.arena.size
  older : ∀ v w, s.arena.Names v w → w < v
  acyclic : ∀ v, ¬ Relation.TransGen s.arena.Names v v
  collects : ∀ v < s.arena.size,
    ∃ atoms, s.arena.atoms? v = some atoms ∧ ∀ a ∈ atoms, a < s.solver.cells.size
  reports : ∀ sol, ∀ v < s.arena.size, ∃ report, s.arena.report? sol v = some report
  equates : ∀ v < s.arena.size, ∀ w < s.arena.size, ∃ eqs, s.arena.equations? v w = some eqs ∧
    ∀ e ∈ eqs, e.1 < s.solver.cells.size ∧ e.2 < s.solver.cells.size

/-- Whatever is asked of a session on whatever units, and whether it ends, is given up or faults,
ids name variables of the right kind that are older, atoms are there, and walks end. -/
theorem Arises.orderly (h : Arises options s) : s.Orderly := by
  have hs := h.wellFormed
  refine { hs with
    memo := fun e he => by
      obtain ⟨made, hmade⟩ := OrderedMap.exists_find? he
      exact (h.knowsBelow.lies _ _ hmade).lt
    older := fun v w hvw => hs.arena.lt_of_names hvw
    acyclic := fun v hv => Nat.lt_irrefl v (hs.arena.lt_of_transGen hv)
    collects := fun v hv => hs.arena.exists_atoms hv
    reports := fun sol v hv => hs.arena.exists_report sol hv
    equates := fun v hv w hw => hs.arena.exists_equations hv hw }

/-- A function is declared, then defined. Its body puts a literal through its parameter and calls a
function that has no prototype. -/
def quotingUnit : TranslationUnit :=
  let char : CType := .builtin "char"
  let signature : Signature := ⟨.pointer char, [.pointer (.pointer char)], false, true⟩
  { id := 0
    file := "a.c"
    decls := #[
      ⟨"p", ⟨"a.c", 1, 9⟩, false, .param (.pointer (.pointer char)) (some 1) none⟩,
      ⟨"f", ⟨"a.c", 1, 1⟩, false, .function signature [0] true none⟩,
      ⟨"p", ⟨"a.c", 2, 9⟩, false, .param (.pointer (.pointer char)) (some 3) none⟩,
      ⟨"f", ⟨"a.c", 2, 1⟩, false, .function signature [2] true (some [.expr 3, .expr 7])⟩,
      ⟨"g", ⟨"a.c", 3, 1⟩, false,
        .function ⟨.pointer char, [], false, true⟩ [] true (some [.expr 9])⟩]
    exprs := #[.declRef 2, .unary .deref 0, .stringLiteral "s", .binary .assign 1 2,
      .declRef 4, .call 4 [], .stringLiteral "t", .binary .comma 5 6, .declRef 4,
      .unary .deref 8]
    topLevel := [1, 3, 4] }

def quotingRequests : List Request :=
  [.enter quotingUnit, .giveVariables quotingUnit 1, .giveVariables quotingUnit 3,
    .giveVariables quotingUnit 4, .flow quotingUnit]

theorem quotingRequests_lawful : ∀ r ∈ quotingRequests, ∀ t, r.Lawful t := by
  simp [quotingRequests, Request.Lawful]

/-- The unit is followed, which gives one statement up, and then entered once more, which faults. -/
theorem Arises.orderly_quotingUnit :
    ∃ s t, Arises .default s ∧ Arises .default t ∧ t = ((enter quotingUnit) s).2 ∧
      ((enter quotingUnit) s).1.toOption = none ∧ t.arena.size = 13 ∧
      t.solver.cells.size = 10 ∧ t.pointees.entries = [(4, some 8)] ∧ t.Orderly := by
  let s := (Session.new .default).after quotingRequests
  have hs : Arises .default s := Continues.after quotingRequests_lawful
  have ht := hs.request (.enter quotingUnit) trivial
  exact ⟨s, _, hs, ht, rfl, by decide +kernel, by decide +kernel, by decide +kernel,
    by decide +kernel, Arises.orderly ht⟩

end Session

end CheckedPointers
