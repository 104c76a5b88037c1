import CheckedPointers.Proofs.Analysis.Progress
import CheckedPointers.Proofs.Session.Arity

/-!
Linking once more. Whatever linking records depends on the variables and the tables alone, which
neither linking nor repair changes; so a second run finds every constraint of the first on record.
-/
namespace CheckedPointers

open Op

namespace Op

variable {α β : Type} {R : Frame} {s : Session} {x : Op α} {f : α → Op β} {Q : β → Session → Prop}

theorem Recalls.bind_known {o : Option α} (h : ∀ a, o = some a → Recalls R (f a) s Q) :
    Recalls R (known o >>= f) s Q := by
  cases o with
  | none => exact Meets.fault
  | some a => exact h a rfl

/-- A loop has nothing left to do if no turn has. -/
theorem Recalls.forM {g : α → Op PUnit} {l : List α}
    (h : ∀ a ∈ l, ∀ t, R.rel s t → Recalls R (g a) t fun _ _ => True) :
    Recalls R (l.forM g) s fun _ _ => True := by
  induction l generalizing s with
  | nil => exact Recalls.pure trivial
  | cons a rest ih =>
    change Recalls R (g a >>= fun _ => rest.forM g) s _
    refine Recalls.bind (h a List.mem_cons_self s (R.refl s)) fun _ t hst _ =>
      ih fun b hb w htw => ?_
    exact h b (List.mem_cons_of_mem a hb) w (R.trans hst htw)

theorem Recalls.mapM {g : α → Op β} {l : List α}
    (h : ∀ a ∈ l, ∀ t, R.rel s t → Recalls R (g a) t fun _ _ => True) :
    Recalls R (l.mapM g) s fun _ _ => True := by
  induction l generalizing s with
  | nil => exact Recalls.pure trivial
  | cons a rest ih =>
    rw [List.mapM_cons]
    refine Recalls.bind (h a List.mem_cons_self s (R.refl s)) fun _ t hst _ => ?_
    refine Recalls.bind (ih fun b hb w htw => ?_) fun _ _ _ _ => Recalls.pure trivial
    exact h b (List.mem_cons_of_mem a hb) w (R.trans hst htw)

theorem discard_eq (x : Op α) : (discard x : Op PUnit) = x >>= fun _ => pure ⟨⟩ := by
  rw [bind_pure_comp]
  rfl

theorem discard_bind (x : Op α) (f : α → Op β) :
    (discard (x >>= f) : Op PUnit) = x >>= fun a => discard (f a) := by
  simp only [discard_eq, bind_assoc]

/-- Of two operations that both say whether something was new nothing is left but what they do. -/
theorem discard_both (x y : Op Bool) :
    (discard (do
      let first ← x
      let others ← y
      return first || others) : Op PUnit) = (do discard x; discard y) := by
  simp only [discard_eq, bind_assoc, pure_bind]

end Op

namespace Session

variable {options : Options} {s t : Session}

/-! ## Bounds and equations -/

theorem discard_boundAtoms (c : Category) (atoms : List Atom) :
    (discard (boundAtoms c atoms) : Op PUnit) =
      atoms.forM fun a => discard (addConstraint (.atLeast a c)) := by
  induction atoms with
  | nil => rfl
  | cons a rest ih => rw [boundAtoms, discard_both, ih]; rfl

theorem discard_boundAll (c : Category) (vs : List VarId) :
    (discard (boundAll c vs) : Op PUnit) = vs.forM fun v => discard (boundBelow v c) := by
  induction vs with
  | nil => rfl
  | cons v rest ih => rw [boundAll, discard_both, ih]; rfl

/-- A bound is recorded once. -/
theorem boundBelow_recalls (v : VarId) (c : Category) (s : Session) :
    Recalls .records (discard (boundBelow v c)) s fun _ _ => True := by
  rw [boundBelow, discard_bind]
  refine Recalls.bind_get (fun w hw => by rw [hw.arena]) ?_
  rw [discard_bind]
  refine Recalls.bind_known fun atoms _ => ?_
  rw [discard_boundAtoms]
  exact (raiseAtoms_recalls atoms c s).mono fun _ _ _ _ => trivial

theorem boundSet_recalls (set : VarSet) (c : Category) (s : Session) :
    Recalls .records (discard (boundSet set c)) s fun _ _ => True := by
  rw [boundSet, discard_boundAll]
  exact Recalls.forM fun v _ t _ => boundBelow_recalls v c t

theorem boundSignature_recalls (f : FunctionVariable) (c : Category) (s : Session) :
    Recalls .records (boundSignature f c) s fun _ _ => True :=
  Recalls.forM fun slot _ t _ => boundSet_recalls slot c t

theorem equate_recalls (a b : VarId) (s : Session) :
    Recalls .records (equate a b) s fun _ _ => True := by
  refine Recalls.bind_get (fun w hw => by rw [hw.arena]) (Recalls.bind_known fun eqs _ => ?_)
  exact Recalls.forM fun e _ t _ => (record_recalls _ t).mono fun _ _ _ _ => trivial

theorem equateSets_recalls (x y : VarSet) (s : Session) :
    Recalls .records (equateSets x y) s fun _ _ => True :=
  Recalls.forM fun a _ _ _ => Recalls.forM fun b _ t _ => equate_recalls a b t

/-! ## The three passes -/

/-- A chain whose steps add nothing later adds nothing later. -/
theorem chain_recalls {α : Type} {f : VarId → VarId → Op α}
    (hf : ∀ a b t, Recalls .records (f a b) t fun _ _ => True) (l : List VarId) (s : Session) :
    Recalls .records (chain f l) s fun _ _ => True := by
  induction l generalizing s with
  | nil => exact Recalls.pure trivial
  | cons a l ih =>
    cases l with
    | nil => exact Recalls.pure trivial
    | cons b rest =>
      rw [chain]
      refine Recalls.bind (hf a b s) fun _ t _ _ => ?_
      exact Recalls.bind (ih t) fun _ _ _ _ => Recalls.pure trivial

/-- Declarations that were reconciled are reconciled for good. -/
theorem reconcile_recalls (a b : VarId) (s : Session) :
    Recalls .records (reconcile a b) s fun _ _ => True := by
  refine Recalls.bind_get (fun w hw => by rw [hw.arena]) ?_
  dsimp only
  split
  · next f g _ _ =>
    refine Recalls.bind (equateSets_recalls f.returns g.returns s) fun _ t _ _ => ?_
    split
    · refine Recalls.bind (Recalls.forM fun e _ w _ => equateSets_recalls e.1 e.2 w) ?_
      exact fun _ _ _ _ => Recalls.pure trivial
    · split
      · refine Recalls.bind (boundSignature_recalls f .leastSafe t) fun _ w _ _ => ?_
        exact Recalls.bind (boundSignature_recalls g .leastSafe w) fun _ _ _ _ =>
          Recalls.pure trivial
      · exact Recalls.pure trivial
  · exact Recalls.pure trivial

theorem equateShared_recalls (sets : List VarSet) (s : Session) :
    Recalls .records (sets.forM fun set => discard (chain equate set.members)) s
      fun _ _ => True := by
  refine Recalls.forM fun set _ t _ => ?_
  rw [discard_eq]
  exact Recalls.bind (chain_recalls equate_recalls set.members t) fun _ _ _ _ =>
    Recalls.pure trivial

theorem mergeDeclarations_recalls (s : Session) :
    Recalls .records mergeDeclarations s fun _ _ => True := by
  refine Recalls.bind_get (fun w hw => by rw [hw.only]) ?_
  split
  · refine Recalls.bind (Recalls.mapM fun variants _ t _ => ?_) fun _ _ _ _ => Recalls.pure trivial
    exact chain_recalls reconcile_recalls _ t
  · exact Recalls.pure trivial

theorem boundName_recalls (name : String) (s : Session) :
    Recalls .records (boundName name) s fun _ _ => True := by
  refine Recalls.bind_get (fun w hw => by rw [hw.only]) (Recalls.forM fun v _ t _ => ?_)
  refine Recalls.bind_get (fun w hw => by rw [hw.arena]) ?_
  split
  · next f _ => exact boundSignature_recalls f .leastSafe t
  · exact Recalls.pure trivial

/-! ## Linking -/

/-- After a run of linking and whatever has been recorded since, another run reports the same and
changes nothing. -/
theorem Records.links_again {first : LinkSummary} {w : Session} (htw : t.Records w)
    (h : link.Ends s first t) : link.Ends w { first with newConstraints := 0 } w := by
  obtain ⟨⟨r, m, reconciled, hopened, hequate, hmerge, hforce, rfl⟩⟩ := exists_linkPasses h
  obtain ⟨hsr, -, hequate⟩ := (equateShared_recalls _ s).of_ends hequate
  obtain ⟨hrm, -, hmerge⟩ := (mergeDeclarations_recalls r).of_ends hmerge
  obtain ⟨hmt, -, hforce⟩ := (Recalls.forM fun name _ t _ =>
    boundName_recalls name t).of_ends hforce
  have hmw : m.Records w := Records.trans hmt htw
  have hrw : r.Records w := Records.trans hrm hmw
  have hsw : s.Records w := Records.trans hsr hrw
  have hshared : w.sharedSets = s.sharedSets := by rw [sharedSets, hsw.only]; rfl
  have hunresolved : w.unresolvedNames = s.unresolvedNames := by rw [hsw.only]; rfl
  refine LinkPasses.ends
    { equated := w, merged := w, reconciled, merge := hmerge w hmw
      opened := ?opened, equate := ?equate, force := ?force, summary_eq := ?summary }
  case opened => rwa [hsw.only]
  case equate =>
    rw [equateShared, hshared]
    exact hequate w hrw
  case force => exact hunresolved ▸ hforce w htw
  case summary => rw [hshared, hunresolved, Nat.sub_self]

/-- One session comes of another by rounds of repair, each against some solution. -/
inductive Repaired : Session → Session → Prop where
  | none (s : Session) : Repaired s s
  | round {s t u : Session} {sol : Solution} {b : Bool} : (repair sol).Ends s b t →
      Repaired t u → Repaired s u

theorem Repaired.records (h : s.Repaired t) (hs : s.WellFormed) : s.Records t := by
  induction h with
  | none s => exact .refl s
  | round hround _ ih =>
    have hst := ((repair_repairs _ hs).of_ends hround).1
    exact Records.trans hst (ih (Records.creates hst |>.wellFormed hs))

/-- So many rounds of solving and repair end. -/
theorem WellFormed.furtherRounds_ends (hs : s.WellFormed) (n : Nat) :
    ∃ rounds t, (furtherRounds n).Ends s rounds t ∧ s.Repaired t := by
  induction n generalizing s with
  | zero => exact ⟨[], s, ends_pure.2 ⟨rfl, rfl⟩, .none s⟩
  | succ n ih =>
    obtain ⟨b, t, hround, hst, -⟩ := hs.repair_ends
    obtain ⟨rounds, w, hrest, htw⟩ := ih (hst.creates.wellFormed hs)
    refine ⟨(s.solver.solve, b) :: rounds, w, ?_, .round hround htw⟩
    refine ends_bind.2 ⟨_, s, ends_solve.2 ⟨rfl, rfl⟩, ends_bind.2 ⟨b, t, hround, ?_⟩⟩
    exact ends_bind.2 ⟨rounds, w, hrest, ends_pure.2 ⟨rfl, rfl⟩⟩

/-- Whatever was asked of a session, as long as no unit is open, linking it ends, and so do any
number of rounds of solving and repair after that. However it was repaired, in rounds against
whichever solutions, linking it again reports the same and adds no constraint, and indeed changes
nothing. -/
theorem Reachable.links_once (hs : Reachable options s) (hopened : s.opened = none) :
    ∃ first t, link.Ends s first t ∧
      (∀ n, ∃ rounds w, (furtherRounds n).Ends t rounds w ∧ t.Repaired w) ∧
      ∀ w, t.Repaired w → link.Ends w { first with newConstraints := 0 } w := by
  have hidle : s.Idle := ⟨hs.wellFormed, hopened⟩
  obtain ⟨first, t, hlink⟩ := (link_failsOnly hidle).ends
  have hst : s.Records t := ((link_meets s).of_ends hlink).1
  have ht := hst.creates.wellFormed hs.wellFormed
  exact ⟨first, t, hlink, ht.furtherRounds_ends, fun w hw => (hw.records ht).links_again hlink⟩

/-- Of two prototypes of one parameter and one of two, linking equates the first two and forces
the last two. One round of repair later there is nothing left to link. -/
theorem Reachable.links_once_disagreeing :
    ∃ s first t, Reachable .default s ∧ s.opened = none ∧ link.Ends s first t ∧
      first.mergedDeclarations = 1 ∧ first.arityMismatches = 1 ∧ 0 < first.newConstraints ∧
      ∃ rounds w, (furtherRounds 1).Ends t rounds w ∧
        link.Ends w { first with newConstraints := 0 } w := by
  obtain ⟨_, s, hrequests, hfound⟩ := exists_ends (x := Session.requests disagreeing)
    (s := .new .default)
    (g := fun _ s => s.opened.isNone && (link s).1.toOption.any fun first =>
      first.mergedDeclarations = 1 && first.arityMismatches = 1 && 0 < first.newConstraints)
    (b := true) (by decide +kernel)
  obtain ⟨hopened, hfirst⟩ := Bool.and_eq_true_iff.1 hfound
  have hs : Reachable .default s := Reachable.new.requests hrequests
  obtain ⟨first, t, hlink, hrounds, hagain⟩ := hs.links_once (Option.isNone_iff_eq_none.1 hopened)
  obtain ⟨rounds, w, hround, htw⟩ := hrounds 1
  have hlinked : link s = (.ok first, t) := hlink
  rw [hlinked] at hfirst
  obtain ⟨⟨hmerged, hconflicts⟩, hnew⟩ :
      (first.mergedDeclarations = 1 ∧ first.arityMismatches = 1) ∧ 0 < first.newConstraints := by
    simpa [Except.toOption] using hfirst
  exact ⟨s, first, t, hs, Option.isNone_iff_eq_none.1 hopened, hlink, hmerged, hconflicts, hnew,
    rounds, w, hround, hagain w htw⟩

end Session

end CheckedPointers
