import CheckedPointers.Proofs.Variable.Arena
import CheckedPointers.Session.Repair
import CheckedPointers.Session.Snapshot

/-!
Variables and reports without the spelling of types. How a type was spelled is kept for messages
only: what variables own, what equating them records and what repair makes of them is the same
without it.
-/
namespace CheckedPointers

def PointerVariable.unspelled (p : PointerVariable) : PointerVariable := { p with baseType := "" }

theorem PointerVariable.dereferenced?_unspelled (p : PointerVariable) :
    p.unspelled.dereferenced? = p.dereferenced?.map unspelled := by
  obtain ⟨atoms, _⟩ := p
  rcases atoms with _ | ⟨_, _ | _⟩ <;> rfl

def FunctionVariable.unspelled (f : FunctionVariable) : FunctionVariable :=
  { f with signature := none }

def Variable.unspelled : Variable → Variable
  | pointer p => pointer p.unspelled
  | function f => function f.unspelled

@[simp] theorem Variable.name_unspelled (x : Variable) : x.unspelled.name = x.name := by
  cases x <;> rfl

namespace Report

mutual

/-- The report without the spelling of types. -/
def unspelled : Report → Report
  | pointer name _ categories isArray itype (some f) =>
    pointer name "" categories isArray itype (some f.unspelled)
  | pointer name _ categories isArray itype none => pointer name "" categories isArray itype none
  | function name returns params hasBody =>
    function name (unspelledAll returns) (unspelledSlots params) hasBody

def unspelledAll : List Report → List Report
  | [] => []
  | r :: rest => r.unspelled :: unspelledAll rest

def unspelledSlots : List (List Report) → List (List Report)
  | [] => []
  | slot :: rest => unspelledAll slot :: unspelledSlots rest

end

theorem unspelledAll_eq_map (rs : List Report) : unspelledAll rs = rs.map unspelled := by
  induction rs with
  | nil => rfl
  | cons r rest ih => simp [unspelledAll, ih]

theorem unspelledSlots_eq_map (slots : List (List Report)) :
    unspelledSlots slots = slots.map (List.map unspelled) := by
  induction slots with
  | nil => rfl
  | cons slot rest ih => simp [unspelledSlots, unspelledAll_eq_map, ih]

/-- Categories do not depend on the spelling of types. -/
@[simp] theorem categories_unspelled (r : Report) : r.unspelled.categories = r.categories := by
  match r with
  | pointer _ _ _ _ _ (some _) => simp [unspelled, categories]
  | pointer _ _ _ _ _ none => simp [unspelled, categories]
  | function .. => simp [unspelled, categories]

end Report

namespace Assignment

def unspelled (a : Assignment) : Assignment :=
  { a with
    indexed := a.indexed.map fun e => (e.1, e.2.map Report.unspelled)
    implicits := a.implicits.map fun e => (e.1, e.2.map Report.unspelled) }

end Assignment

theorem mapM_map_some {α β γ : Type} {g : α → Option β} {g' : α → Option γ} {h : β → γ}
    {l : List α} (hg : ∀ a ∈ l, g' a = (g a).map h) : l.mapM g' = (l.mapM g).map (List.map h) := by
  induction l with
  | nil => rfl
  | cons a rest ih =>
    rw [List.mapM_cons, List.mapM_cons, hg a List.mem_cons_self,
      ih fun b hb => hg b (List.mem_cons_of_mem a hb)]
    cases g a <;> cases rest.mapM g <;> rfl

namespace Arena

def unspelled (arena : Arena) : Arena := arena.map Variable.unspelled

variable (arena : Arena) {sol : Solution} (v w : VarId)

@[simp] theorem getElem?_unspelled : arena.unspelled[v]? = arena[v]?.map Variable.unspelled :=
  Array.getElem?_map

@[simp] theorem size_unspelled : arena.unspelled.size = arena.size := Array.size_map

@[simp] theorem unspelled_push (x : Variable) :
    unspelled (arena.push x) = arena.unspelled.push x.unspelled := Array.map_push

@[simp] theorem pointer?_unspelled :
    arena.unspelled.pointer? v = (arena.pointer? v).map PointerVariable.unspelled := by
  simp only [pointer?, getElem?_unspelled]
  rcases arena[v]? with _ | (_ | _) <;> rfl

@[simp] theorem function?_unspelled :
    arena.unspelled.function? v = (arena.function? v).map FunctionVariable.unspelled := by
  simp only [function?, getElem?_unspelled]
  rcases arena[v]? with _ | (_ | _) <;> rfl

@[simp] theorem isPointer_unspelled : arena.unspelled.isPointer v = arena.isPointer v := by
  simp [isPointer]

@[simp] theorem isFunction_unspelled : arena.unspelled.isFunction v = arena.isFunction v := by
  simp [isFunction]

@[simp] theorem reachable?_unspelled : arena.unspelled.reachable? v = arena.reachable? v := by
  simp only [reachable?, getElem?_unspelled]
  rcases arena[v]? with _ | (_ | _) <;> rfl

@[simp] theorem reachableFunction?_unspelled : arena.unspelled.reachableFunction? v =
    (arena.reachableFunction? v).map FunctionVariable.unspelled := by
  simp only [reachableFunction?, reachable?_unspelled]
  rcases arena.reachable? v with _ | f
  · rfl
  · exact function?_unspelled arena f

theorem atomsWithin_unspelled (n : Nat) : arena.unspelled.atomsWithin n v = arena.atomsWithin n v := by
  induction n generalizing v with
  | zero => rfl
  | succ n ih =>
    have ih : arena.unspelled.atomsWithin n = arena.atomsWithin n := funext ih
    simp only [atomsWithin, getElem?_unspelled, ih]
    rcases arena[v]? with _ | (_ | _) <;> rfl

@[simp] theorem atoms?_unspelled : arena.unspelled.atoms? v = arena.atoms? v :=
  atomsWithin_unspelled arena v (v + 1)

theorem equationsWithin_unspelled (n : Nat) :
    arena.unspelled.equationsWithin n v w = arena.equationsWithin n v w := by
  induction n generalizing v w with
  | zero => rfl
  | succ n ih =>
    have ih : arena.unspelled.equationsWithin n = arena.equationsWithin n :=
      funext fun v => funext (ih v)
    simp only [equationsWithin, getElem?_unspelled, ih]
    rcases arena[v]? with _ | (_ | _) <;> rcases arena[w]? with _ | (_ | _) <;> rfl

@[simp] theorem equations?_unspelled : arena.unspelled.equations? v w = arena.equations? v w :=
  equationsWithin_unspelled arena v w (v + w + 1)

/-- Reports differ in the spelling of types alone. -/
theorem reportWithin_unspelled (n : Nat) : arena.unspelled.reportWithin sol n v =
    (arena.reportWithin sol n v).map Report.unspelled := by
  induction n generalizing v with
  | zero => rfl
  | succ n ih =>
    have hslot (slot : VarSet) : slot.members.mapM (arena.unspelled.reportWithin sol n) =
        (slot.members.mapM (arena.reportWithin sol n)).map (List.map Report.unspelled) :=
      mapM_map_some fun v _ => ih v
    simp only [reportWithin, getElem?_unspelled]
    rcases arena[v]? with _ | (p | f)
    · rfl
    · rcases hp : p.function with _ | f
      · simp [Variable.unspelled, PointerVariable.unspelled, hp, Report.unspelled]
      · simp only [Option.map_some, Option.bind_eq_bind, Option.bind_some, Variable.unspelled,
          PointerVariable.unspelled, hp, ih]
        cases arena.reportWithin sol n f <;> simp [Report.unspelled]
    · have hparams : f.params.mapM (fun (slot : VarSet) =>
          slot.members.mapM (arena.unspelled.reportWithin sol n)) =
          (f.params.mapM fun (slot : VarSet) =>
            slot.members.mapM (arena.reportWithin sol n)).map (List.map (List.map Report.unspelled)) :=
        mapM_map_some fun slot _ => hslot slot
      simp only [Option.map_some, Option.bind_eq_bind, Option.bind_some, Variable.unspelled,
        FunctionVariable.unspelled, hparams]
      rw [hslot]
      cases f.returns.members.mapM (arena.reportWithin sol n) with
      | none => rfl
      | some returns =>
        cases f.params.mapM fun (slot : VarSet) => slot.members.mapM (arena.reportWithin sol n) with
        | none => rfl
        | some params =>
          simp [Report.unspelled, Report.unspelledAll_eq_map, Report.unspelledSlots_eq_map]

@[simp] theorem report?_unspelled : arena.unspelled.report? sol v =
    (arena.report? sol v).map Report.unspelled := reportWithin_unspelled arena v (v + 1)

@[simp] theorem levels_unspelled : arena.unspelled.levels v = arena.levels v := by
  simp only [levels, pointer?_unspelled, atoms?_unspelled]
  cases arena.pointer? v <;> rfl

@[simp] theorem leastSafeLevel?_unspelled :
    arena.unspelled.leastSafeLevel? sol v = arena.leastSafeLevel? sol v := by
  simp [leastSafeLevel?]

@[simp] theorem hasWildLevel_unspelled :
    arena.unspelled.hasWildLevel sol v = arena.hasWildLevel sol v := by
  simp [hasWildLevel]

@[simp] theorem leastSafe?_unspelled (set : VarSet) :
    arena.unspelled.leastSafe? sol set = arena.leastSafe? sol set := by
  have hworse : arena.unspelled.worse sol = arena.worse sol := by
    funext best v
    simp [worse]
  simp only [leastSafe?, hworse]

end Arena

end CheckedPointers
