import CheckedPointers.Proofs.Session.Calls
import CheckedPointers.Proofs.Session.Failure
import CheckedPointers.Proofs.Session.Hops
import CheckedPointers.Proofs.Session.Order
import CheckedPointers.Proofs.Variable.Symmetry

/-!
Equating two variables. It always ends, it records equations only and the same ones in either order,
and from then on every solution gives the variables categories that agree.
-/
namespace CheckedPointers

open Op

namespace Session

variable {s t t' w : Session} {a b : VarId} {options : Options}

/-- Equating variables that are there ends, and it records their equations and nothing else. -/
theorem exists_equated (hs : s.WellFormed) (ha : a < s.arena.size) (hb : b < s.arena.size) :
    ∃ t, (equate a b).Ends s ⟨⟩ t ∧ s.Records t ∧ t.EquationsRecorded a b ∧
      ∀ c ∈ t.solver.constraints, c ∈ s.solver.constraints ∨ EquationOf s.arena a b c := by
  obtain ⟨_, t, hends⟩ := (equate_failsOnly hs ha hb).ends
  obtain ⟨hst, hrecorded⟩ := (equate_stated a b s).of_ends hends
  exact ⟨t, hends, hst, hrecorded, ((equate_adds a b s).of_ends hends).2⟩

/-- What is recorded in one order is recorded in the other. -/
theorem recorded_in_either_order (hs : s.WellFormed) (hst : s.Records t) (hst' : s.Records t')
    (hadded : ∀ c ∈ t.solver.constraints, c ∈ s.solver.constraints ∨ EquationOf s.arena a b c)
    (hrecorded : t'.EquationsRecorded b a) :
    ∀ c ∈ t.solver.constraints, c ∈ t'.solver.constraints := by
  intro c hc
  rcases hadded c hc with hold | ⟨eqs, heqs, e, he, rfl⟩
  · exact hst'.solver.mem hold
  obtain ⟨eqs', heqs', hsaid⟩ := hrecorded
  rw [hst'.arena] at heqs'
  have hsays : t'.solver.Says (.equal e.1 e.2) := by
    rcases Arena.equations_mirror heqs heqs' e he with he | he
    · exact hsaid e he
    · exact (hsaid e.swap he).symm
  -- an equation of an atom with itself would not have been recorded
  exact hsays.resolve_left ((hst.creates.wellFormed hs).solver.canonical _ hc).2

/-- Recorded equations make the variables agree in every session that follows. -/
theorem EquationsRecorded.concur (h : t.EquationsRecorded a b) (htw : t.Extends w)
    (hw : w.WellFormed) (ha : a < t.arena.size) (hb : b < t.arena.size) :
    w.arena.Concur (fun x y => w.solver.solve.category x = w.solver.solve.category y) a b := by
  obtain ⟨eqs, heqs, hentailed⟩ := h.equated
  have hsame : ∀ e ∈ eqs, w.solver.solve.category e.1 = w.solver.solve.category e.2 :=
    fun e he => ((hentailed e he).grows htw.solver).satisfies hw.solver
  have hcoincide : t.arena.Coincide w.solver.solve.verdict.same a b :=
    Arena.equatesWithin _ heqs hsame
  have hle := htw.arena.size_le
  exact (hcoincide.imp htw.arena fun _ _ => id).concur hw.arena w.solver.solve.equivalence_same
    (Nat.lt_of_lt_of_le ha hle) (Nat.lt_of_lt_of_le hb hle)

/-- Equating two variables ends in either order. Only equations are recorded, in either order the
same ones. Whatever is asked of the session afterwards, any solution gives the two categories that
agree kind by kind and level by level. -/
theorem Reachable.equate_agrees (hs : Reachable options s) (ha : a < s.arena.size)
    (hb : b < s.arena.size) :
    ∃ t t', (equate a b).Ends s ⟨⟩ t ∧ (equate b a).Ends s ⟨⟩ t' ∧ s.Records t ∧
      (∀ c ∈ t.solver.constraints, c ∈ s.solver.constraints ∨ ∃ x y, c = .equal x y) ∧
      (∀ c, c ∈ t.solver.constraints ↔ c ∈ t'.solver.constraints) ∧
      ∀ rs w, (Session.requests rs).Ends t ⟨⟩ w →
        w.arena.Concur (fun x y => w.solver.solve.category x = w.solver.solve.category y) a b := by
  have hwf := hs.wellFormed
  obtain ⟨t, hends, hst, hrecorded, hadded⟩ := exists_equated hwf ha hb
  obtain ⟨t', hends', hst', hrecorded', hadded'⟩ := exists_equated hwf hb ha
  refine ⟨t, t', hends, hends', hst, fun c hc => ?_, fun c => ⟨?_, ?_⟩, fun rs w hrequests => ?_⟩
  · refine (hadded c hc).imp_right fun ⟨eqs, _, e, _, he⟩ => ?_
    rw [he, Constraint.normalized]
    split <;> exact ⟨_, _, rfl⟩
  · exact recorded_in_either_order hwf hst hst' hadded hrecorded' c
  · exact recorded_in_either_order hwf hst' hst hadded' hrecorded c
  · have ht : Reachable options t := hs.ended (r := .equate a b) hends
    rw [← hst.arena] at ha hb
    exact hrecorded.concur (extends_of_requests ht hrequests)
      (ht.requests hrequests).wellFormed ha hb

/-- The declaration of a function and its definition, whose parameter is given a string. After they
are equated, the parameter of the declaration takes one too, and a bound on what the declaration
returns holds of what the definition returns. -/
theorem Reachable.equate_agrees_quotingUnit :
    ∃ s t t' w, Reachable .default s ∧ 2 < s.arena.size ∧ 5 < s.arena.size ∧
      (equate 2 5).Ends s ⟨⟩ t ∧ (equate 5 2).Ends s ⟨⟩ t' ∧
      [0, 3, 2, 5].map s.solver.solve.category = [.ptr, .ptr, .ptr, .ntArr] ∧
      (∀ c, c ∈ t.solver.constraints ↔ c ∈ t'.solver.constraints) ∧
      (Session.requests [.boundBelow 0 .arr]).Ends t ⟨⟩ w ∧
      [0, 3, 2, 5].map w.solver.solve.category = [.arr, .arr, .ntArr, .ntArr] ∧
      w.arena.Concur (fun x y => w.solver.solve.category x = w.solver.solve.category y) 2 5 := by
  obtain ⟨_, s, hrequests, hfound⟩ := exists_ends (x := Session.requests quotingRequests)
    (s := .new .default)
    (g := fun _ s => s.arena.size = 13 &&
      [0, 3, 2, 5].map s.solver.solve.category = [.ptr, .ptr, .ptr, .ntArr] &&
      (Session.requests [.boundBelow 0 .arr] (equate 2 5 s).2).1.toOption = some ⟨⟩ &&
      [0, 3, 2, 5].map
        (Session.requests [.boundBelow 0 .arr] (equate 2 5 s).2).2.solver.solve.category =
          [.arr, .arr, .ntArr, .ntArr])
    (b := true) (by decide +kernel)
  simp only [Bool.and_eq_true, decide_eq_true_eq] at hfound
  obtain ⟨⟨⟨hsize, hbefore⟩, hbound⟩, hafter⟩ := hfound
  have hs : Reachable .default s := Reachable.new.requests hrequests
  have h₂ : 2 < s.arena.size := by omega
  have h₅ : 5 < s.arena.size := by omega
  obtain ⟨t, t', hends, hends', -, -, hsame, hagree⟩ := hs.equate_agrees h₂ h₅
  have ht : (equate 2 5 s).2 = t := by rw [hends]
  rw [ht] at hbound hafter
  obtain ⟨w, hw⟩ := exists_ends_of_run hbound
  have hw' : (Session.requests [.boundBelow 0 .arr] t).2 = w := by rw [hw]
  rw [hw'] at hafter
  exact ⟨s, t, t', w, hs, h₂, h₅, hends, hends', hbefore, hsame, hw, hafter, hagree _ w hw⟩

end Session

end CheckedPointers
