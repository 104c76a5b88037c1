import CheckedPointers.Proofs.Session.Correspondence
import CheckedPointers.Proofs.Session.Echo

/-!
Linking and repair in other words. They look at atoms and variables only, so sessions that differ
in spelling go through them alike.
-/
namespace CheckedPointers

/-- Functions that are the same but for their spelling take and return the same. -/
theorem FunctionVariable.corresponds_of_unspelled {f g : FunctionVariable}
    (h : g.unspelled = f.unspelled) : f.Corresponds Eq g := by
  rw [unspelled, unspelled, mk.injEq] at h
  obtain ⟨-, hreturns, hparams, hbody, hprototype, -⟩ := h
  have hself (x : VarSet) : x.Corresponds Eq x := List.forall₂_refl x.members
  refine ⟨hreturns ▸ hself _, ?_, hbody, hprototype⟩
  rw [hparams]
  exact List.forall₂_same.2 fun x _ => hself x

namespace Session

open Op

variable {K : ExprId → ExprId → Prop} {visit : Option (Nat × String)} {s t : Session}

namespace Echoes

theorem leastSafeLevel? (h : s.Echoes K visit t) (sol : Solution) (v : VarId) :
    t.arena.leastSafeLevel? sol v = s.arena.leastSafeLevel? sol v :=
  h.of_arena (g := fun arena => arena.leastSafeLevel? sol v) (Arena.leastSafeLevel?_unspelled · v)

theorem hasWildLevel (h : s.Echoes K visit t) (sol : Solution) (v : VarId) :
    t.arena.hasWildLevel sol v = s.arena.hasWildLevel sol v :=
  h.of_arena (g := fun arena => arena.hasWildLevel sol v) (Arena.hasWildLevel_unspelled · v)

end Echoes

/-- Echoes have the same functions but for spelling. -/
theorem functionsCorrespond_echoes : FunctionsCorrespond (Echoes K visit) Eq := by
  rintro s t v _ hst rfl
  have hf := rel_of_map_eq (hst.function? v)
  generalize s.arena.function? v = f, t.arena.function? v = g at hf
  cases hf with
  | none => exact .none
  | some hf => exact .some (FunctionVariable.corresponds_of_unspelled hf)

theorem Echoes.declarationsPaired (h : s.Echoes K visit t) (key : FunctionKey)
    (definition : VarId) :
    t.declarationsPaired key definition = s.declarationsPaired key definition := by
  have hname : t.arena[definition]?.map Variable.name = s.arena[definition]?.map Variable.name :=
    h.of_arena (g := fun arena => arena[definition]?.map Variable.name) fun arena => by
      simp [Function.comp_def]
  have hbodiless (v : VarId) := functionsCorrespond_echoes.any_bodiless h (v := v) rfl
  simp only [Session.declarationsPaired, h.pairing, hname, h.globals, h.implicits, hbodiless]

/-! ## Linking -/

theorem linksAlike_echoes : LinksAlike (Echoes K visit) Eq where
  functions := functionsCorrespond_echoes
  boundBelow c hv := hv ▸ boundBelow_echoes _ c
  equate hv hv' := hv ▸ hv' ▸ equate_echoes _ _

theorem sameTables_echoes : SameTables (Echoes K none) Eq 0 0 where
  closed hst := hst.closed
  options hst := hst.options
  externs hst := hst.externs
  index hst := ⟨hst.index, fun _ _ _ _ => rfl⟩
  globals hst := ⟨hst.globals, fun _ _ _ _ => rfl⟩
  added hst := by rw [hst.solver]

theorem link_echoes : Matches (Echoes K none) Eq link link :=
  linksAlike_echoes.link sameTables_echoes

/-! ## Repair -/

theorem raise_echoes (sol : Solution) (v : VarId) (c : Category) :
    Matches (Echoes K visit) Eq (raise sol v c) (raise sol v c) := by
  apply Matches.bind_get
  intro s t hst
  have hatoms := rel_of_map_eq
    (hst.pointer?_map (g := PointerVariable.atoms) (fun _ => rfl) v)
  generalize s.arena.pointer? v = p, t.arena.pointer? v = p' at hatoms
  cases hatoms with
  | none => exact .pure rfl
  | some hatoms =>
    dsimp only
    rw [hatoms]
    exact (Matches.forM_eq fun a _ => (addConstraint_echoes _).discard).bind_eq fun _ => .pure rfl

/-- Repair reads no spelling. -/
theorem repairsAlike_echoes (sol : Solution) : RepairsAlike (Echoes K visit) Eq sol sol where
  functions := functionsCorrespond_echoes
  same hv hv' := hv ▸ hv' ▸ Iff.rfl
  leastSafeLevel? hst hv := hv ▸ hst.leastSafeLevel? sol _
  hasWildLevel hst hv := hv ▸ hst.hasWildLevel sol _
  raise c hv := hv ▸ raise_echoes sol _ c
  definitions hst := by
    rw [hst.pairing]
    exact List.forall₂_same.2 fun e _ => ⟨rfl, List.forall₂_refl e.2.members⟩
  declarations key hst hv := by
    rw [← hv, hst.declarationsPaired]
    exact List.forall₂_refl _

theorem repair_echoes (sol : Solution) :
    Matches (Echoes K visit) Eq (repair sol) (repair sol) := (repairsAlike_echoes sol).repair

end Session

end CheckedPointers
