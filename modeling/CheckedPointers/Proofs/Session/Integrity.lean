import CheckedPointers.Proofs.Constraint.LeastSolution
import CheckedPointers.Proofs.Session.Outcome
import CheckedPointers.Proofs.Variable.Arena

/-!
What holds of every session, and the ways in which operations change one. Ids name variables that
are there, and nothing made or recorded is taken back.
-/
namespace CheckedPointers

namespace ConstraintSystem

/-- Atoms and constraints are only added, each constraint on atoms that are there. -/
structure Grows (s t : ConstraintSystem) : Prop where
  size_le : s.cells.size ≤ t.cells.size
  recorded : s.constraints.toList <+: t.constraints.toList
  sound : s.Sound → t.Sound

variable {s t u : ConstraintSystem}

theorem Grows.refl (s : ConstraintSystem) : s.Grows s := ⟨Nat.le_refl _, List.prefix_rfl, id⟩

theorem Grows.trans (h : s.Grows t) (h' : t.Grows u) : s.Grows u :=
  ⟨Nat.le_trans h.size_le h'.size_le, h.recorded.trans h'.recorded, h'.sound ∘ h.sound⟩

theorem Grows.mem {c : Constraint} (h : s.Grows t) (hc : c ∈ s.constraints) :
    c ∈ t.constraints := Array.mem_def.2 (h.recorded.subset (Array.mem_def.1 hc))

theorem grows_fresh (s : ConstraintSystem) : s.Grows s.fresh.2 :=
  ⟨by simp [fresh], List.prefix_rfl, Sound.fresh⟩

theorem grows_add {c : Constraint} (hc : c.Known s.cells.size) : s.Grows (s.add c).2 :=
  ⟨by simp, add_constraints_prefix s c, fun h => h.add hc⟩

def Entails (s : ConstraintSystem) (c : Constraint) : Prop :=
  ∀ value, Solution.Solves value s.constraints → Solution.Satisfies value c

theorem Entails.grows {c : Constraint} (h : s.Entails c) (hg : s.Grows t) : t.Entails c :=
  fun value hv => h value fun d hd => hv d (hg.mem hd)

theorem Entails.satisfies {c : Constraint} (h : s.Entails c) (hs : s.Sound) :
    Solution.Satisfies s.solve.category c := h _ hs.solves

/-- A constraint that was added holds of all that satisfies the store. -/
theorem entails_add (s : ConstraintSystem) (c : Constraint) : (s.add c).2.Entails c := by
  intro value hv
  rw [← Solution.satisfies_normalized]
  by_cases htriv : c.normalized.isTrivial
  · cases hform : c.normalized with
    | equal a b =>
      rw [hform] at htriv
      simp only [Constraint.isTrivial, decide_eq_true_eq] at htriv
      rw [htriv]
      rfl
    | atLeast a k => rw [hform] at htriv; cases htriv
  · exact hv _ ((mem_add_constraints s c _).2 (.inr ⟨rfl, htriv⟩))

end ConstraintSystem

/-- What was made for the open unit is remembered while it stays open. -/
structure OpenUnit.Remembers (o o' : OpenUnit) : Prop where
  id : o'.id = o.id
  file : o'.file = o.file
  literals : ∀ e v, o.literals.find? e = some v → o'.literals.find? e = some v
  unknownCallees : ∀ e v, o.unknownCallees.find? e = some v → o'.unknownCallees.find? e = some v

theorem OpenUnit.Remembers.refl (o : OpenUnit) : o.Remembers o :=
  ⟨rfl, rfl, fun _ _ h => h, fun _ _ h => h⟩

theorem OpenUnit.Remembers.trans {o o' o'' : OpenUnit} (h : o.Remembers o')
    (h' : o'.Remembers o'') : o.Remembers o'' :=
  ⟨h'.id.trans h.id, h'.file.trans h.file, fun e v he => h'.literals e v (h.literals e v he),
    fun e v he => h'.unknownCallees e v (h.unknownCallees e v he)⟩

namespace Session

def variants (s : Session) (name : String) : VarSet := (s.globals.find? name).getD .empty

/-- Every id in a table names a variable that is there, of the kind that the table holds. -/
structure WellFormed (s : Session) : Prop where
  solver : s.solver.Sound
  arena : s.arena.WellFormed s.solver.cells.size
  index : ∀ e ∈ s.index.entries, ∀ v ∈ e.2, v < s.arena.size
  globals : ∀ e ∈ s.globals.entries, ∀ v ∈ e.2, s.arena.isFunction v
  definitions : ∀ e ∈ s.pairing.definitions, ∀ v ∈ e.2, s.arena.isFunction v
  declarations : ∀ e ∈ s.pairing.declarations.entries, ∀ v ∈ e.2, s.arena.isFunction v
  implicits : ∀ e ∈ s.implicits.entries, ∀ v ∈ e.2, s.arena.isFunction v
  pointees : ∀ e ∈ s.pointees.entries, ∀ d, e.2 = some d → s.arena.isPointer d
  literals : ∀ o, s.opened = some o → ∀ e ∈ o.literals.entries, s.arena.isPointer e.2
  unknownCallees : ∀ o, s.opened = some o → ∀ e ∈ o.unknownCallees.entries,
    s.arena.isFunction e.2

theorem wellFormed_new (options : Options) : (new options).WellFormed where
  solver := ConstraintSystem.sound_empty
  arena := ⟨by simp [new, Arena.pointer?], by simp [new, Arena.function?],
    by simp [new, Arena.pointer?]⟩
  index := by simp [new, OrderedMap.empty]
  globals := by simp [new, OrderedMap.empty]
  definitions := by simp [new, Pairing.empty]
  declarations := by simp [new, Pairing.empty, OrderedMap.empty]
  implicits := by simp [new, OrderedMap.empty]
  pointees := by simp [new, OrderedMap.empty]
  literals := by simp [new]
  unknownCallees := by simp [new]

theorem WellFormed.stored_lt {s : Session} (h : s.WellFormed) {anchor : Anchor} {v : VarId}
    (hv : v ∈ s.storedAt anchor) : v < s.arena.size := by
  unfold storedAt at hv
  cases he : s.index.find? anchor with
  | none => simp [he] at hv
  | some set =>
    rw [he] at hv
    exact h.index _ (OrderedMap.mem_of_find? he) v hv

theorem WellFormed.variant {s : Session} (h : s.WellFormed) {name : String} {v : VarId}
    (hv : v ∈ s.variants name) : s.arena.isFunction v := by
  unfold variants at hv
  cases he : s.globals.find? name with
  | none => simp [he] at hv
  | some set =>
    rw [he] at hv
    exact h.globals _ (OrderedMap.mem_of_find? he) v hv

def Registered (s : Session) (v : VarId) : Prop := ∃ e ∈ s.pairing.definitions, v ∈ e.2

/-- What every operation does: it adds atoms, constraints and variables, forgets no definition and
keeps the session well formed. -/
structure Extends (s t : Session) : Prop where
  options : t.options = s.options
  solver : s.solver.Grows t.solver
  arena : s.arena.Grows t.arena
  registered : ∀ v, s.Registered v → t.Registered v
  wellFormed : s.WellFormed → t.WellFormed

variable {s t u : Session}

/-- A change of other tables alone extends a session, if it does no harm there. -/
theorem Extends.of_tables (hoptions : t.options = s.options) (hsolver : t.solver = s.solver)
    (harena : t.arena = s.arena) (hpairing : t.pairing = s.pairing)
    (h : s.WellFormed → t.WellFormed) : s.Extends t where
  options := hoptions
  solver := hsolver ▸ .refl _
  arena := harena ▸ .refl _
  registered v hv := by rwa [Registered, hpairing]
  wellFormed := h

theorem Extends.refl (s : Session) : s.Extends s := .of_tables rfl rfl rfl rfl id

theorem Extends.trans (h : s.Extends t) (h' : t.Extends u) : s.Extends u :=
  ⟨h'.options.trans h.options, h.solver.trans h'.solver, h.arena.trans h'.arena,
    fun v hv => h'.registered v (h.registered v hv), h'.wellFormed ∘ h.wellFormed⟩

/-- A session that differs from a well-formed one in its atoms, constraints and arena alone is
well formed if its arena is. -/
theorem WellFormed.extend {solver : ConstraintSystem} {arena : Arena} (h : s.WellFormed)
    (hsolver : s.solver.Grows solver) (hg : s.arena.Grows arena)
    (harena : arena.WellFormed solver.cells.size) :
    { s with solver := solver, arena := arena : Session }.WellFormed where
  solver := hsolver.sound h.solver
  arena := harena
  index e he v hv := Nat.lt_of_lt_of_le (h.index e he v hv) hg.size_le
  globals e he v hv := hg.isFunction (h.globals e he v hv)
  definitions e he v hv := hg.isFunction (h.definitions e he v hv)
  declarations e he v hv := hg.isFunction (h.declarations e he v hv)
  implicits e he v hv := hg.isFunction (h.implicits e he v hv)
  pointees e he d hd := hg.isPointer (h.pointees e he d hd)
  literals o ho e he := hg.isPointer (h.literals o ho e he)
  unknownCallees o ho e he := hg.isFunction (h.unknownCallees o ho e he)

structure Records (s t : Session) : Prop where
  solver : s.solver.Grows t.solver
  size : t.solver.cells.size = s.solver.cells.size
  only : t = { s with solver := t.solver }

theorem Records.refl (s : Session) : s.Records s := ⟨.refl _, rfl, rfl⟩

theorem Records.trans (h : s.Records t) (h' : t.Records u) : s.Records u := by
  refine ⟨h.solver.trans h'.solver, h'.size.trans h.size, ?_⟩
  rw [h'.only, h.only]

theorem Records.arena (h : s.Records t) : t.arena = s.arena := by rw [h.only]

theorem Records.variants (h : s.Records t) (name : String) : t.variants name = s.variants name := by
  rw [h.only]
  rfl

structure Creates (s t : Session) : Prop extends Extends s t where
  only : t = { s with solver := t.solver, arena := t.arena }

theorem Creates.refl (s : Session) : s.Creates s := ⟨.refl s, rfl⟩

theorem Creates.trans (h : s.Creates t) (h' : t.Creates u) : s.Creates u := by
  refine ⟨h.toExtends.trans h'.toExtends, ?_⟩
  rw [h'.only, h.only]

theorem Records.creates (h : s.Records t) : s.Creates t where
  options := by rw [h.only]
  solver := h.solver
  arena := by rw [h.arena]; exact .refl _
  registered v hv := by rw [h.only]; exact hv
  wellFormed hs := by
    rw [h.only]
    exact hs.extend h.solver (.refl _) (hs.arena.mono (Nat.le_of_eq h.size.symm))
  only := by rw [h.only]

/-- Values are followed or units linked: what is indexed and noted stays as it is, and what was
made on demand is remembered. -/
structure Follows (s t : Session) : Prop extends Extends s t where
  index : t.index = s.index
  globals : t.globals = s.globals
  implicits : ∀ k set, s.implicits.find? k = some set → t.implicits.find? k = some set
  pointees : ∀ v m, s.pointees.find? v = some m → t.pointees.find? v = some m

theorem Follows.refl (s : Session) : s.Follows s where
  toExtends := .refl s
  index := rfl
  globals := rfl
  implicits _ _ := id
  pointees _ _ := id

theorem Follows.trans (h : s.Follows t) (h' : t.Follows u) : s.Follows u where
  toExtends := h.toExtends.trans h'.toExtends
  index := h'.index.trans h.index
  globals := h'.globals.trans h.globals
  implicits k set hk := h'.implicits k set (h.implicits k set hk)
  pointees v m hv := h'.pointees v m (h.pointees v m hv)

/-- One unit is followed: what was made for it is remembered. -/
structure Visits (s t : Session) : Prop extends Follows s t where
  opened : ∀ o, s.opened = some o → ∃ o', t.opened = some o' ∧ o.Remembers o'

theorem Visits.refl (s : Session) : s.Visits s where
  toFollows := .refl s
  opened o ho := ⟨o, ho, .refl o⟩

theorem Visits.trans (h : s.Visits t) (h' : t.Visits u) : s.Visits u where
  toFollows := h.toFollows.trans h'.toFollows
  opened o ho := by
    obtain ⟨o₁, ho₁, hr₁⟩ := h.opened o ho
    obtain ⟨o₂, ho₂, hr₂⟩ := h'.opened o₁ ho₁
    exact ⟨o₂, ho₂, hr₁.trans hr₂⟩

theorem Creates.visits (h : s.Creates t) : s.Visits t where
  toExtends := h.toExtends
  index := by rw [h.only]
  globals := by rw [h.only]
  implicits _ _ hk := by rw [h.only]; exact hk
  pointees _ _ hv := by rw [h.only]; exact hv
  opened o ho := ⟨o, by rw [h.only]; exact ho, .refl o⟩

/-- Declarations are given variables: the tables grow, and an anchor that has a function variable
gets no other. -/
structure Indexes (s t : Session) : Prop extends Extends s t where
  index : ∀ anchor, ∀ v ∈ s.storedAt anchor, v ∈ t.storedAt anchor
  globals : ∀ name, ∀ v ∈ s.variants name, v ∈ t.variants name
  function_kept : s.WellFormed → ∀ anchor, (∃ v ∈ s.storedAt anchor, s.arena.isFunction v) →
    ∀ v ∈ t.storedAt anchor, t.arena.isFunction v → v ∈ s.storedAt anchor

theorem Indexes.refl (s : Session) : s.Indexes s where
  toExtends := .refl s
  index _ _ := id
  globals _ _ := id
  function_kept _ _ _ _ hv _ := hv

/-- An anchor with a function variable gets no other, at neither step. -/
theorem Indexes.trans (h : s.Indexes t) (h' : t.Indexes u) : s.Indexes u where
  toExtends := h.toExtends.trans h'.toExtends
  index anchor v hv := h'.index anchor v (h.index anchor v hv)
  globals name v hv := h'.globals name v (h.globals name v hv)
  function_kept hs anchor := by
    rintro ⟨w, hw, hfun⟩ v hv hv'
    have hw' : ∃ w ∈ t.storedAt anchor, t.arena.isFunction w :=
      ⟨w, h.index anchor w hw, h.arena.isFunction hfun⟩
    have hvt := h'.function_kept (h.wellFormed hs) anchor hw' v hv hv'
    have hlt : v < t.arena.size := (h.wellFormed hs).stored_lt hvt
    exact h.function_kept hs anchor ⟨w, hw, hfun⟩ v hvt (h'.arena.isFunction_eq hlt ▸ hv')

/-- Whatever leaves both tables as they are indexes, if it does no harm otherwise. -/
theorem Follows.indexes (h : s.Follows t) : s.Indexes t where
  toExtends := h.toExtends
  index _ _ hv := by rw [storedAt, h.index]; exact hv
  globals _ _ hv := by rw [variants, h.globals]; exact hv
  function_kept _ _ _ _ hv _ := by rw [storedAt, h.index] at hv; exact hv

end Session

namespace Frame

def records : Frame := ⟨Session.Records, .refl, .trans⟩

def creates : Frame := ⟨Session.Creates, .refl, .trans⟩

def follows : Frame := ⟨Session.Follows, .refl, .trans⟩

def visits : Frame := ⟨Session.Visits, .refl, .trans⟩

def indexes : Frame := ⟨Session.Indexes, .refl, .trans⟩

end Frame

namespace Op

variable {α : Type} {x : Op α} {s : Session} {Q : α → Session → Prop}

theorem Meets.to_creates (h : Meets .records x s Q) : Meets .creates x s Q :=
  h.widen fun _ => Session.Records.creates

theorem Meets.to_visits (h : Meets .creates x s Q) : Meets .visits x s Q :=
  h.widen fun _ => Session.Creates.visits

theorem Meets.to_indexes (h : Meets .follows x s Q) : Meets .indexes x s Q :=
  h.widen fun _ => Session.Follows.indexes

theorem Meets.to_follows (h : Meets .visits x s Q) : Meets .follows x s Q :=
  h.widen fun _ => Session.Visits.toFollows

end Op

end CheckedPointers
