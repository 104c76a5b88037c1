import CheckedPointers.Proofs.Session.Demands
import CheckedPointers.Proofs.Session.Sharing

/-!
What every reachable session keeps. It comes about by single steps, new atoms apart, so whatever
these keep holds of it. Its definitions have bodies and are no declarations, and so none is among
the declarations that repair pairs with it.
-/
namespace CheckedPointers

open Op

namespace Session

variable {s t : Session} {v w : VarId} {options : Options}

/-- Each request takes steps; one for an atom makes it and does nothing else. -/
theorem Request.advances_or_fresh {b : Bool} (r : Request) (h : (attempt r.run).Ends s b t) :
    Frame.advancing.rel s t ∨ t = { s with solver := s.solver.fresh.2 } := by
  have hlawful : r.Lawful s → Frame.advancing.rel s t := fun hr =>
    (r.run_advancing hr).attempt.of_ends h
  cases r with
  | freshAtom =>
    rcases ends_attempt.1 h with ⟨-, hrun⟩ | ⟨-, e, hrun⟩
    · cases hrun
      exact .inr rfl
    · cases hrun
  | addConstraint c =>
    have hrecords : Meets .records (attempt (discard (Session.addConstraint c))) s fun _ _ => True :=
      Meets.attempt (Meets.discard (addConstraint_meets c s).any) fun _ _ => trivial
    exact .inl (Advances.advancing fun _ => (VisitStep.records (hrecords.of_ends h).1).advances)
  | _ => exact .inl (hlawful trivial)

/-- What holds at first, and what every step and every new atom keeps, holds of every reachable
session. -/
theorem Reachable.keeps {P : Session → Prop} (hnew : P (Session.new options))
    (hstep : ∀ s t, s.WellFormed → s.Advances t → P s → P t)
    (hfresh : ∀ s, P s → P { s with solver := s.solver.fresh.2 }) (h : Reachable options s) :
    P s := by
  induction h with
  | new => exact hnew
  | request r hs hends ih =>
    rcases r.advances_or_fresh hends with hst | rfl
    · exact Frame.steps_keep (fun _ _ hs hst => (hst.step.extends hs).wellFormed hs) hstep hst
        hs.wellFormed ih
    · exact hfresh _ ih

theorem Reachable.separate (h : Reachable options s) : s.Separate :=
  h.keeps (separate_new options) (fun _ _ hs hst hseparate => hseparate.step hs hst.step)
    fun _ hseparate => ⟨hseparate.functions, hseparate.signatures⟩

theorem HasBody.extends (h : s.HasBody v) (hst : s.Extends t) : t.HasBody v := by
  obtain ⟨f, hf, hbody⟩ := h
  exact ⟨f, hst.arena.function? hf, hbody⟩

/-- What is noted as a definition has a body. -/
theorem Reachable.hasBody (h : Reachable options s) (hv : s.Registered v) : s.HasBody v := by
  have hall : ∀ v, s.Registered v → s.HasBody v := by
    apply h.keeps (P := fun s => ∀ v, s.Registered v → s.HasBody v)
    · rintro v ⟨e, he, -⟩
      cases he
    · intro s t hs hst hall v hv
      rcases hst.bodies v hv with hold | hnew
      · exact (hall v hold).extends (hst.step.extends hs)
      · exact hnew
    · exact fun _ hall => hall
  exact hall v hv

/-- What repair pairs with a definition are functions, and none is the definition. -/
theorem Reachable.paired {key : FunctionKey} (h : Reachable options s) (hv : s.Registered v)
    (hw : w ∈ s.declarationsPaired key v) : w ≠ v ∧ s.arena.isFunction w := by
  have hdeclared : ∀ key', w ∈ s.pairing.declaredUnder key' → w ≠ v ∧ s.arena.isFunction w := by
    intro key' hw
    have hdeclared : s.Declared w := ⟨key', hw⟩
    exact ⟨(h.separate.functions v w hv hdeclared).1, hdeclared.isFunction h.wellFormed⟩
  rcases of_mem_declarationsPaired hw with ⟨key', -, hw⟩ | ⟨-, hw | hvariant⟩
  · exact hdeclared key' hw
  · unfold implicitsUnder at hw
    cases hset : s.implicits.find? key with
    | none => simp [hset] at hw
    | some set =>
      rw [hset] at hw
      exact hdeclared key (h.separate.signatures key set hset w hw)
  · obtain ⟨f, hf, hbody⟩ := h.hasBody hv
    obtain ⟨-, g, hg, hbodiless⟩ := hvariant f hf
    refine ⟨?_, Arena.isFunction_iff.2 ⟨g, hg⟩⟩
    rintro rfl
    obtain rfl := Option.some.inj (hf.symm.trans hg)
    exact hbodiless hbody

end Session

end CheckedPointers
