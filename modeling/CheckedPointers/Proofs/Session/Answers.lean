import CheckedPointers.Proofs.Analysis.Rest
import CheckedPointers.Proofs.Session.Completion
import CheckedPointers.Proofs.Session.Walk

/-!
What may be asked of a session while a closed unit is open. Whatever came before, following the
unit comes to its end, and every question about one of its expressions or declarations has an
answer or a reason why it has none.
-/
namespace CheckedPointers

open Op TranslationUnit

namespace Op

/-- From `s` the operation ends with an answer that `Q` admits or is given up for a reason that `E`
admits, and leaves a well-formed session. It meets no fault. -/
def Resolves {α : Type} (x : Op α) (s : Session) (Q : α → Session → Prop)
    (E : ShapeError → Prop) : Prop :=
  match x s with
  | (.ok a, t) => t.WellFormed ∧ Q a t
  | (.error (.unresolved e), t) => t.WellFormed ∧ E e
  | (.error (.fault _), _) => False

end Op

namespace Session

variable {options : Options} {s : Session} {u : TranslationUnit} {o : OpenUnit}

/-- What a visit establishes if it ends, together with the ways in which it may fail. -/
theorem Ready.resolves {α : Type} {x : Op α} {Q : α → Session → Prop} {E : ShapeError → Prop}
    (hr : Ready u s) (h : Recalls .visits x s Q)
    (hfails : FailsOnly (fun e => ∃ shape, e = .unresolved shape ∧ E shape) x s) :
    x.Resolves s Q E := by
  have hkept : ∀ t, s.Visits t → t.WellFormed := fun t hst => hst.wellFormed hr.wellFormed
  rcases hx : x s with ⟨(f | shape) | a, t⟩ <;> simp only [Recalls, Meets, Resolves, hx] at h ⊢
  · obtain ⟨shape, he, -⟩ := hfails.of_error _ t hx
    cases he
  · obtain ⟨shape', he, hshape⟩ := hfails.of_error _ t hx
    cases he
    exact ⟨hkept t h, hshape⟩
  · exact ⟨hkept t h.1, h.2.1⟩

/-- In every session that requests can bring about and in which a closed unit is open: all ids name
something of their kind; following the unit ends; the variables that an expression or a declaration
denotes are there, or it is said why it denotes none, which for a declaration is always the fault of
a parameter; unwrapping an expression ends at one; and following an expression visits the nodes on
its route, none of them twice. -/
theorem Reachable.answers (hs : Reachable options s) (ho : IsOpen u o s)
    (hu : u.checkClosed = .ok ()) :
    s.WellFormed ∧
    (∃ summary t, (flow u).Ends s summary t ∧ t.WellFormed) ∧
    (∀ e < u.exprs.size, ∀ view, (denote u e view).Resolves s Holds fun _ => True) ∧
    (∀ d < u.decls.size, ∀ view,
      (denoteDecl u d view).Resolves s Holds fun shape => ∃ error, shape = .parameter error) ∧
    (∀ e < u.exprs.size, Gives (u.unparen e) (· < u.exprs.size) ∧
      Gives (u.uncast e) (· < u.exprs.size)) ∧
    ∀ e view, follow u view e = (u.route (expressionLimit + 1) e).forM (visitNode u view) ∧
      ((u.route (expressionLimit + 1) e).map Prod.snd).Nodup := by
  have hclosed := closed_of_checkClosed hu
  have hr : Ready u s := ⟨hs.wellFormed, o, ho⟩
  refine ⟨hs.wellFormed, ?_, fun e he view => ?_, fun d hd view => ?_,
    fun e he => ⟨hclosed.unparen_gives he, hclosed.uncast_gives he⟩,
    fun e view => ⟨followWithin_eq u view _ e, (forest_of_checkClosed hu).nodup_route _ e⟩⟩
  · obtain ⟨summary, t, hends⟩ := (flow_failsOnly hclosed hr).ends
    have hst : s.Visits t := ((flow_meets u hs.wellFormed).of_ends hends).1
    exact ⟨summary, t, hends, hst.wellFormed hs.wellFormed⟩
  · apply hr.resolves (denote_recalls u e view hs.wellFormed)
    exact denote_failsOnly (.of_all fun shape => ⟨shape, rfl, trivial⟩) hclosed hr he
  · apply hr.resolves (denoteDecl_recalls u d view hs.wellFormed)
    exact denoteDecl_failsOnly (fun error => ⟨_, rfl, error, rfl⟩) hclosed hr hd

/-- The unit is indexed and entered again. Following it gives up no statement, the
subscripted name denotes one variable, and the walk from the subscript enters three
nodes. -/
theorem Reachable.answers_subscriptedParameter :
    ∃ s o, Reachable .default s ∧ IsOpen subscriptedParameter o s ∧
      (∃ t, (flow subscriptedParameter).Ends s ⟨1, 1, 0⟩ t ∧ t.WellFormed) ∧
      ((denote subscriptedParameter 0 .body).Resolves s Holds fun _ => True) ∧
      ((denote subscriptedParameter 0 .body) s).1.toOption.map VarSet.size = some 1 ∧
      ((subscriptedParameter.route (expressionLimit + 1) 2).map Prod.snd) = [2, 0, 1] ∧
      [2, 0, 1].Nodup := by
  let rs : List Request := [.enter subscriptedParameter, .giveVariables subscriptedParameter 1,
    .giveVariables subscriptedParameter 3, .exit, .enter subscriptedParameter]
  obtain ⟨_, s, hrequests, hfound⟩ := exists_ends (x := Session.requests rs) (s := .new .default)
    (g := fun _ s => (s.opened.map fun o => (o.id, o.file),
      ((flow subscriptedParameter) s).1.toOption,
      ((denote subscriptedParameter 0 .body) s).1.toOption.map VarSet.size))
    (b := (some (0, "a.c"), some ⟨1, 1, 0⟩, some 1)) (by decide +kernel)
  obtain ⟨hopened, hrun⟩ := Prod.mk.inj hfound
  obtain ⟨hsummary, hsize⟩ := Prod.mk.inj hrun
  obtain ⟨o, hopened, hid⟩ := Option.map_eq_some_iff.1 hopened
  have hs : Reachable .default s := Reachable.new.requests hrequests
  have ho : IsOpen subscriptedParameter o s := ⟨hopened, Prod.mk.inj hid⟩
  obtain ⟨-, ⟨summary, t, hflow, ht⟩, hdenote, -, -, hwalk⟩ := hs.answers ho (by decide +kernel)
  obtain rfl : summary = ⟨1, 1, 0⟩ := by
    rw [hflow] at hsummary
    exact Option.some.inj hsummary
  have hroute : (subscriptedParameter.route (expressionLimit + 1) 2).map Prod.snd = [2, 0, 1] := by
    decide +kernel
  exact ⟨s, o, hs, ho, ⟨t, hflow, ht⟩, hdenote 0 (by decide) .body, hsize, hroute,
    hroute ▸ (hwalk 2 .body).2⟩

end Session

end CheckedPointers
