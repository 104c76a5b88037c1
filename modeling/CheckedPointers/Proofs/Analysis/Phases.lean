import CheckedPointers.Proofs.Session.Demands
import CheckedPointers.Proofs.Session.Linking
import CheckedPointers.Proofs.Session.Settling
import CheckedPointers.Proofs.Session.Sites
import CheckedPointers.Proofs.Session.Steps

/-!
The phases of an analysis: all units are indexed, then followed one after another, then linked and
settled. Each phase leaves a well-formed session to the next.
-/
namespace CheckedPointers

open Op

namespace Session

variable {s t w : Session} {options : Options} {units : List TranslationUnit}

def indexUnits (units : List TranslationUnit) : Op PUnit :=
  units.forM fun u => discard (indexUnit u)

theorem indexes_of_indexUnits (h : (indexUnits units).Ends s ⟨⟩ t) (hs : s.WellFormed) :
    s.Indexes t := ((indexUnits_meets units hs).of_ends h).1

/-- The sessions between the phases of an analysis. -/
structure Phases (units : List TranslationUnit) (s : Session) (outcome : Outcome)
    (t : Session) where
  indexed : Session
  followed : Session
  linked : Session
  index : (indexUnits units).Ends s ⟨⟩ indexed
  flow : (flowUnits units).Ends indexed outcome.flow followed
  link : link.Ends followed outcome.link linked
  settle : (settle (max linked.options.maxRepairRounds 1)).Ends linked outcome.settled t
  assignment : (assignment outcome.settled.sol).Ends t outcome.assignment t

/-- A report is an answer that changes nothing. -/
theorem ends_assignment {sol : Solution} {a : Assignment} :
    (assignment sol).Ends s a t ↔ s.assignment? sol = some a ∧ s = t := by
  constructor
  · intro h
    obtain ⟨_, _, hget, h⟩ := ends_bind.1 h
    obtain ⟨rfl, rfl⟩ := ends_get.1 hget
    exact ends_known.1 h
  · rintro ⟨h, rfl⟩
    exact ends_bind.2 ⟨_, _, ends_get.2 ⟨rfl, rfl⟩, ends_known.2 ⟨h, rfl⟩⟩

/-- An analysis that ends has gone through all its phases. -/
theorem exists_phases {outcome : Outcome} (h : (analyse units).Ends s outcome t) :
    Nonempty (Phases units s outcome t) := by
  obtain ⟨_, s₁, hindex, h⟩ := ends_bind.1 h
  obtain ⟨f, s₂, hflow, h⟩ := ends_bind.1 h
  obtain ⟨l, s₃, hlink, h⟩ := ends_bind.1 h
  obtain ⟨_, _, hget, h⟩ := ends_bind.1 h
  obtain ⟨rfl, rfl⟩ := ends_get.1 hget
  obtain ⟨r, s₄, hsettle, h⟩ := ends_bind.1 h
  obtain ⟨a, s₅, hassign, h⟩ := ends_bind.1 h
  obtain ⟨rfl, rfl⟩ := ends_pure.1 h
  obtain ⟨ha, rfl⟩ := ends_assignment.1 hassign
  exact ⟨⟨s₁, s₂, s₃, hindex, hflow, hlink, hsettle, ends_assignment.2 ⟨ha, rfl⟩⟩⟩

/-- An analysis is all of its phases. -/
theorem Phases.ends {outcome : Outcome} (p : Phases units s outcome t) :
    (analyse units).Ends s outcome t := by
  refine ends_bind.2 ⟨⟨⟩, p.indexed, p.index, ends_bind.2 ⟨_, p.followed, p.flow, ?_⟩⟩
  refine ends_bind.2 ⟨_, p.linked, p.link, ends_bind.2 ⟨_, _, ends_get.2 ⟨rfl, rfl⟩, ?_⟩⟩
  refine ends_bind.2 ⟨_, t, p.settle, ends_bind.2 ⟨_, t, p.assignment, ?_⟩⟩
  exact ends_pure.2 ⟨rfl, rfl⟩

/-! ## Following -/

/-- Following a unit and then the rest. -/
theorem ends_flowUnits_cons {u : TranslationUnit} {rest : List TranslationUnit} {f : FlowSummary}
    (h : (flowUnits (u :: rest)).Ends s f t) :
    ∃ s₁ steps s₂ s₃ f', (enter u).Ends s ⟨⟩ s₁ ∧ u.steps = .ok steps ∧
      (attemptAll u steps).Ends s₁ ⟨⟩ s₂ ∧ exit.Ends s₂ ⟨⟩ s₃ ∧
      (flowUnits rest).Ends s₃ f' t := by
  obtain ⟨_, s₁, henter, h⟩ := ends_bind.1 h
  obtain ⟨f₁, s₂, hflow, h⟩ := ends_bind.1 h
  obtain ⟨_, s₃, hexit, h⟩ := ends_bind.1 h
  obtain ⟨f₂, s₄, hrest, h⟩ := ends_bind.1 h
  obtain ⟨-, rfl⟩ := ends_pure.1 h
  obtain ⟨steps, hsteps, hattempts⟩ := ends_flow hflow
  exact ⟨s₁, steps, s₂, s₃, f₂, henter, hsteps, hattempts, hexit, hrest⟩

/-- To follow units leaves what is indexed and noted as it is. -/
theorem follows_of_flowUnits {f : FlowSummary} (h : (flowUnits units).Ends s f t)
    (hs : s.WellFormed) : s.Follows t := by
  induction units generalizing s f with
  | nil =>
    obtain ⟨-, rfl⟩ := ends_pure.1 h
    exact .refl s
  | cons u rest ih =>
    obtain ⟨s₁, steps, s₂, s₃, f', henter, -, hattempts, hexit, hrest⟩ := ends_flowUnits_cons h
    have h₁ : s.Follows s₁ := ((enter_meets u s).of_ends henter).1
    have h₂ : s₁.Visits s₂ :=
      ((attemptAll_meets u steps (h₁.wellFormed hs)).of_ends hattempts).1
    have h₃ : s₂.Follows s₃ := ((exit_meets s₂).of_ends hexit).1
    have h₁₃ := (h₁.trans h₂.toFollows).trans h₃
    exact h₁₃.trans (ih hrest (h₁₃.wellFormed hs))

/-! ## All phases -/

namespace Phases

variable {outcome : Outcome} (p : Phases units (.new options) outcome t)

include p

theorem indexes : (Session.new options).Indexes p.indexed :=
  indexes_of_indexUnits p.index (wellFormed_new options)

/-- Function variables come from the declarators of the units. -/
theorem traces : Traces (Declares units) (.new options) p.indexed :=
  ((indexUnits_traces units (wellFormed_new options)).of_ends p.index).2

theorem notedAll {u : TranslationUnit} {ids : List DeclId} (hu : u ∈ units)
    (hids : u.declarators = .ok ids) : p.indexed.NotedAll u ids :=
  ((indexUnits_meets units (wellFormed_new options)).of_ends p.index).2.1 u hu ids hids

theorem wellFormed_indexed : p.indexed.WellFormed := p.indexes.wellFormed (wellFormed_new options)

theorem follows : p.indexed.Follows p.followed :=
  follows_of_flowUnits p.flow p.wellFormed_indexed

theorem demands : Demands units p.indexed p.followed :=
  ((flowUnits_demands units p.indexed).of_ends p.flow).1

theorem wellFormed_followed : p.followed.WellFormed := p.follows.wellFormed p.wellFormed_indexed

theorem links : p.followed.Records p.linked := ((link_meets p.followed).of_ends p.link).1

theorem wellFormed_linked : p.linked.WellFormed := p.links.creates.wellFormed p.wellFormed_followed

theorem settles : p.linked.Records t :=
  ((settle_meets _ p.wellFormed_linked).of_ends p.settle).1

theorem wellFormed : t.WellFormed := p.settles.creates.wellFormed p.wellFormed_linked

/-- What follows the visits of the units only adds constraints. -/
theorem records : p.followed.Records t := p.links.trans p.settles

theorem isSettled : t.IsSettled outcome.settled :=
  ((settle_meets _ p.wellFormed_linked).of_ends p.settle).2.1

/-- The options of the analysis are those that it was given. -/
theorem options_linked : p.linked.options = options := by
  rw [p.links.creates.options, p.follows.options, p.indexes.options]
  rfl

end Phases

end Session

end CheckedPointers
