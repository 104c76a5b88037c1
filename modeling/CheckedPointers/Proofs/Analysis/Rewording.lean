import CheckedPointers.Analysis
import CheckedPointers.Proofs.Session.EchoedFlow
import CheckedPointers.Proofs.Session.EchoedRounds

/-!
Analyses in other words. Programs that say the same unit by unit come to the same outcome, up to
the spelling of types in the assignment.
-/
namespace CheckedPointers

def Outcome.unspelled (o : Outcome) : Outcome := { o with assignment := o.assignment.unspelled }

def Reworded : List TranslationUnit → List TranslationUnit → Prop :=
  List.Forall₂ fun u u' => Nonempty (u.Rewording u')

namespace Session

open Op

variable {K : ExprId → ExprId → Prop} {visit : Option (Nat × String)} {s t : Session}

/-! ## Reports -/

theorem mapM_map_congr {α β γ : Type} {g g' : α → Option β} {h : β → γ} (l : List α)
    (hg : ∀ a, (g' a).map h = (g a).map h) :
    (l.mapM g').map (List.map h) = (l.mapM g).map (List.map h) := by
  have hmapped : l.mapM (fun a => (g a).map h) = (l.mapM g).map (List.map h) :=
    mapM_map_some fun _ _ => rfl
  have hmapped' : l.mapM (fun a => (g a).map h) = (l.mapM g').map (List.map h) :=
    mapM_map_some fun a _ => (hg a).symm
  rw [← hmapped, ← hmapped']

theorem Echoes.reports (h : s.Echoes K visit t) (sol : Solution) (set : VarSet) :
    (t.reports sol set).map (List.map Report.unspelled) =
      (s.reports sol set).map (List.map Report.unspelled) :=
  mapM_map_congr set.members fun v => by
    rw [← Arena.report?_unspelled, h.arena, Arena.report?_unspelled]

theorem Echoes.reportEntries (h : s.Echoes K visit t) {κ : Type} (sol : Solution)
    (m : OrderedMap κ VarSet) :
    (t.reportEntries sol m).map (List.map fun e => (e.1, e.2.map Report.unspelled)) =
      (s.reportEntries sol m).map (List.map fun e => (e.1, e.2.map Report.unspelled)) :=
  mapM_map_congr m.entries fun e => by
    have hreports := congrArg (Option.map (e.1, ·)) (h.reports sol e.2)
    simpa only [Option.map_map, Function.comp_def] using hreports

/-- Reports differ in the spelling of types alone. -/
theorem Echoes.assignment? (h : s.Echoes K visit t) (sol : Solution) :
    (t.assignment? sol).map Assignment.unspelled = (s.assignment? sol).map Assignment.unspelled := by
  have hindex := h.reportEntries sol s.index
  have himplicits := h.reportEntries sol s.implicits
  rw [Session.assignment?, Session.assignment?, h.index, h.implicits]
  generalize s.reportEntries sol s.index = a, t.reportEntries sol s.index = a' at hindex
  generalize s.reportEntries sol s.implicits = b, t.reportEntries sol s.implicits = b' at himplicits
  cases a <;> cases a' <;> simp_all
  cases b <;> cases b' <;> simp_all [Assignment.unspelled]

theorem assignment_echoes (sol : Solution) :
    Matches (Echoes K visit) (fun a a' => a'.unspelled = a.unspelled) (assignment sol)
      (assignment sol) := by
  apply Matches.bind_get
  intro s t hst
  have hreports := rel_of_map_eq (hst.assignment? sol)
  generalize s.assignment? sol = a, t.assignment? sol = a' at hreports
  cases hreports with
  | none => exact .fault
  | some h => exact .pure h

/-! ## Rounds -/

/-- Rounds of solving and repair do not see how types are spelled. -/
theorem settleFrom_echoes (n rounds : Nat) (sol : Solution) :
    Matches (Echoes K visit) Eq (settleFrom n rounds sol) (settleFrom n rounds sol) := by
  induction n generalizing rounds sol with
  | zero => exact .pure rfl
  | succ n ih =>
    refine (repair_echoes sol).bind_eq fun changed => ?_
    split
    · apply Matches.bind_get
      intro s t hst
      rw [hst.solver]
      exact ih _ _
    · exact .pure rfl

theorem settle_echoes (bound : Nat) :
    Matches (Echoes K visit) Eq (settle bound) (settle bound) := by
  apply Matches.bind_get
  intro s t hst
  rw [hst.solver]
  exact settleFrom_echoes _ _ _

/-! ## Units -/

variable {units units' : List TranslationUnit}

theorem indexUnits_echoes (h : Reworded units units') :
    Leads (Echoes K none) (Echoes K none) Eq (units.forM fun u => discard (indexUnit u))
      (units'.forM fun u => discard (indexUnit u)) := by
  induction h with
  | nil => exact (Matches.pure rfl).leads
  | @cons u u' rest rest' hu _ ih =>
    obtain ⟨w⟩ := hu
    exact (indexUnit_echoes w).discard.bind_eq fun _ => ih

/-- Units that say the same are followed alike, one after another. -/
theorem flowUnits_echoes (h : Reworded units units') :
    Leads (Echoes K none) (Echoes K none) Eq (flowUnits units) (flowUnits units') := by
  induction h with
  | nil => exact (Matches.pure rfl).leads
  | @cons u u' rest rest' hu _ ih =>
    obtain ⟨w⟩ := hu
    exact (enter_echoes _ w.id w.file).bind_eq fun _ => (flow_echoes w).leads.bind_eq fun first =>
      exit_echoes.bind_eq fun _ => ih.bind_eq fun _ => (Matches.pure rfl).leads

/-- Reworded programs come to the same outcome, or both come to none. -/
theorem analyse_echoes (h : Reworded units units') :
    Leads (Echoes K none) (Echoes K none) (fun o o' => o'.unspelled = o.unspelled) (analyse units)
      (analyse units') := by
  refine (indexUnits_echoes h).bind_eq fun _ => ?_
  refine (flowUnits_echoes h).bind_eq fun flow => ?_
  refine Matches.leads ?_
  refine link_echoes.bind_eq fun link => ?_
  apply Matches.bind_get
  intro s t hst
  rw [hst.options]
  refine (settle_echoes _).bind_eq fun settled => ?_
  refine (assignment_echoes settled.sol).bind fun a a' ha => .pure ?_
  rw [Outcome.unspelled, Outcome.unspelled, ha]

theorem Echoes.new (options : Options) : (new options).Echoes K none (new options) :=
  ⟨rfl, rfl, rfl, rfl, rfl, rfl, rfl, rfl, rfl, .none, rfl⟩

end Session

end CheckedPointers
