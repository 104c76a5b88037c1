import CheckedPointers.Proofs.Session.Mirroring

/-!
What is made in a second run stands where the first run made the same.
-/
namespace CheckedPointers

open Op

theorem Op.Meets.to_extending {α : Type} {x : Op α} {s : Session} {Q : α → Session → Prop}
    (h : Meets .creates x s Q) : Meets .extending x s Q := h.widen fun _ hst => hst.toExtends

namespace Session

variable {t t₀ t₁ s s' : Session} {ρ ρ' : Renaming}

/-! ## Creation -/

/-- A new atom may stand for any. -/
theorem freshAtom_fits (h : s.Embeds ρ t) (a : Atom) :
    Fits t freshAtom ρ s fun b ρ' s' => a = ρ'.atom b ∧ b < s'.solver.cells.size := by
  refine ⟨s.solver.cells.size, _, _, rfl, h.fresh a, ⟨ρ.agrees_nameAtom _ _ _,
    s.solver.grows_fresh.size_le, .refl _, fun _ _ => id⟩, (ρ.nameAtom_self _ _).symm, ?_⟩
  simp

theorem freshAtom_mirrors (h : s.Embeds ρ t) :
    Mirrors .extending t freshAtom t₀ freshAtom ρ s fun a b ρ' s' =>
      a = ρ'.atom b ∧ b < s'.solver.cells.size := fun _ => freshAtom_fits h _

/-- New atoms get new names there, in the same order. -/
theorem freshAtoms_mirrors (n : Nat) (h : s.Embeds ρ t) :
    Mirrors .extending t (freshAtoms n) t₀ (freshAtoms n) ρ s fun as bs ρ' s' =>
      as = bs.map ρ'.atom ∧ ∀ b ∈ bs, b < s'.solver.cells.size := by
  induction n generalizing t₀ s ρ with
  | zero => exact Mirrors.pure h ⟨rfl, fun _ hb => nomatch hb⟩
  | succ n ih =>
    have hstep (w : Session) : Meets .extending (freshAtoms n) w fun _ _ => True :=
      (freshAtoms_meets n w).any.to_extending
    refine Mirrors.bind (freshAtom_meets t₀).to_extending (freshAtom_mirrors h)
      (fun _ w _ _ => (hstep w).bind fun _ _ _ _ => .pure trivial) ?_
    intro a t₁ b ρ₁ s₁ _ _ _ he _ ⟨ha, hb⟩
    refine Mirrors.bind (hstep t₁) (ih he) (fun _ _ _ _ => .pure trivial) ?_
    intro as _ bs ρ₂ s₂ _ _ _ he₂ hl ⟨has, hbs⟩
    have hb₂ : ρ₂.atom b = ρ₁.atom b := hl.agrees.atom b hb
    refine Mirrors.pure he₂ ⟨by rw [List.map_cons, hb₂, ha, has], ?_⟩
    exact List.forall_mem_cons.2 ⟨Nat.lt_of_lt_of_le hb hl.atoms, hbs⟩

/-- A new variable stands for one that looks the same. -/
theorem allocate_fits (h : s.Embeds ρ t) {x : Variable} {w : VarId}
    (hx : s.arena.Admits s.solver.cells.size x) (hw : t.arena[w]? = some (x.rename ρ)) :
    Fits t (allocate x) ρ s fun v ρ' s' => w = ρ'.var v ∧ s'.arena[v]? = some x :=
  ⟨s.arena.size, _, _, rfl, h.push hx hw, ⟨ρ.agrees_nameVar _ _ _, Nat.le_refl _,
    s.arena.grows_push x, fun _ _ => id⟩, (ρ.nameVar_self _ _).symm, by simp⟩

theorem allocate_mirrors (h : s.Embeds ρ t) {x : Variable}
    (hx : s.arena.Admits s.solver.cells.size x) :
    Mirrors .extending t (allocate (x.rename ρ)) t₀ (allocate x) ρ s fun w v ρ' s' =>
      w = ρ'.var v ∧ s'.arena[v]? = some x :=
  fun (ht : Session.Extends _ t) => allocate_fits h hx (ht.arena _ _ (by simp))

abbrev SamePointer (w v : VarId) (ρ : Renaming) (s : Session) : Prop :=
  w = ρ.var v ∧ s.arena.isPointer v

theorem SamePointer.later {w v : VarId} (h : SamePointer w v ρ s) (hl : Later ρ ρ' s s') :
    SamePointer w v ρ' s' :=
  ⟨h.1.trans (hl.agrees.var v (Arena.lt_of_isPointer h.2)).symm, hl.arena.isPointer h.2⟩

/-- A pointer is mirrored over whatever is mirrored below it. -/
theorem newPointerOver_mirrors {ty : CType} {name : String} {itype : Option String}
    {pointee : Op (Option VarId)}
    (hm : ∀ w, Meets .creates pointee w fun o t => ∀ f, o = some f → t.arena.isFunction f)
    (hp : ∀ {t₀ : Session} {ρ s}, s.Embeds ρ t → Mirrors .extending t pointee t₀ pointee ρ s
      fun o' o ρ' s' => o' = o.map ρ'.var ∧ ∀ f, o = some f → s'.arena.isFunction f)
    (h : s.Embeds ρ t) :
    Mirrors .extending t (newPointerOver ty name itype pointee) t₀
      (newPointerOver ty name itype pointee) ρ s SamePointer := by
  have hallocate {atoms : List Atom} {w : Session} (hatoms : ∀ a ∈ atoms, a < w.solver.cells.size)
      {o : Option VarId} {z : Session} (hwz : w.Extends z)
      (ho : ∀ f, o = some f → z.arena.isFunction f) : Meets .extending
      (allocate (.pointer ⟨atoms, ty.bottom.display, name, o, ty.isArray, itype⟩)) z
      fun _ _ => True := by
    have hadmits : z.arena.Admits z.solver.cells.size
        (.pointer ⟨atoms, ty.bottom.display, name, o, ty.isArray, itype⟩) :=
      ⟨ho, fun a ha => Nat.lt_of_lt_of_le (hatoms a ha) hwz.solver.size_le⟩
    exact (allocate_meets hadmits).any.to_extending
  refine Mirrors.bind (freshAtoms_meets _ t₀).to_extending (freshAtoms_mirrors _ h) ?_ ?_
  · intro atoms w _ hatoms
    exact Meets.bind (hm w).to_extending fun o z hwz ho => hallocate hatoms hwz ho
  · intro as t₁ bs ρ₁ s₁ _ has _ he _ ⟨hab, hbs⟩
    refine Mirrors.bind (hm t₁).to_extending (hp he) (fun o z hwz ho => hallocate has hwz ho) ?_
    intro o' t₂ o ρ₂ s₂ _ _ _ he₂ hl ⟨ho', ho⟩
    have hatoms : as = bs.map ρ₂.atom := hab.trans
      (List.map_congr_left fun b hb => (hl.agrees.atom b (hbs b hb)).symm)
    have hadmits : s₂.arena.Admits s₂.solver.cells.size
        (.pointer ⟨bs, ty.bottom.display, name, o, ty.isArray, itype⟩) :=
      ⟨ho, fun b hb => Nat.lt_of_lt_of_le (hbs b hb) hl.atoms⟩
    rw [hatoms, ho']
    refine (allocate_mirrors he₂ hadmits).mono fun w v _ s₃ _ _ hv => ⟨hv.1, ?_⟩
    exact Arena.isPointer_iff.2 ⟨_, Arena.pointer?_of_getElem? hv.2⟩

abbrev SameSlots (slots' slots : List VarSet) (ρ : Renaming) (s : Session) : Prop :=
  slots' = slots.map (VarSet.rename ρ) ∧ s.HoldPointers slots

theorem SameSlots.cons {w v : VarId} {slots' slots : List VarSet} (hv : SamePointer w v ρ s)
    (hl : Later ρ ρ' s s') (h : SameSlots slots' slots ρ' s') :
    SameSlots (.singleton w :: slots') (.singleton v :: slots) ρ' s' := by
  have hvar := hl.agrees.var v (Arena.lt_of_isPointer hv.2)
  exact ⟨by simp [h.1, hv.1, hvar], h.2.cons hv.2 hl.arena⟩

/-- A signature over the slots that both runs have. -/
theorem allocate_function_mirrors {name : String} {r' r : VarId} {slots' slots : List VarSet}
    {hasBody hasPrototype : Bool} {signature : Option Signature} (h : s.Embeds ρ t)
    (hr : SamePointer r' r ρ s) (hslots : SameSlots slots' slots ρ s) :
    Mirrors .extending t
      (allocate (.function ⟨name, .singleton r', slots', hasBody, hasPrototype, signature⟩)) t₀
      (allocate (.function ⟨name, .singleton r, slots, hasBody, hasPrototype, signature⟩)) ρ s
      fun w v ρ' s' => w = ρ'.var v ∧ s'.arena.isFunction v := by
  have hadmits : s.arena.Admits s.solver.cells.size
      (.function ⟨name, .singleton r, slots, hasBody, hasPrototype, signature⟩) := by
    intro slot hslot
    rcases List.mem_cons.1 hslot with rfl | hslot
    · exact .inr ⟨r, rfl, Arena.lt_of_isPointer hr.2, hr.2⟩
    · obtain ⟨p, rfl, hp⟩ := hslots.2 slot hslot
      exact .inr ⟨p, rfl, Arena.lt_of_isPointer hp, hp⟩
  rw [hr.1, hslots.1]
  refine (allocate_mirrors h hadmits).mono fun w v _ s₁ _ _ hv => ⟨hv.1, ?_⟩
  exact Arena.isFunction_iff.2 ⟨_, Arena.function?_of_getElem? hv.2⟩

mutual

/-- The function at the bottom of a type's levels has a counterpart there. -/
theorem newPointee_mirrors (name : String) {t₀ s : Session} {ρ : Renaming} (h : s.Embeds ρ t) :
    (ty : CType) → Mirrors .extending t (newPointee name ty) t₀ (newPointee name ty) ρ s
      fun o' o ρ' s' => o' = o.map ρ'.var ∧ ∀ f, o = some f → s'.arena.isFunction f
  | .pointer inner => by
    rw [newPointee]
    exact newPointee_mirrors name h inner
  | .array elem _ => by
    rw [newPointee]
    exact newPointee_mirrors name h elem
  | .typedef _ underlying => by
    rw [newPointee]
    exact newPointee_mirrors name h underlying
  | .function ret params variadic hasPrototype => by
    rw [newPointee]
    have hfunction {r : VarId} {slots : List VarSet} {w : Session} (hr : w.arena.isPointer r)
        (hslots : w.HoldPointers slots) : Meets .extending (do
          return some (← allocate (.function ⟨name, .singleton r, slots, false, hasPrototype,
            some ⟨ret, params, variadic, hasPrototype⟩⟩))) w fun _ _ => True :=
      Meets.bind (allocate_function_meets hr hslots).to_extending fun _ _ _ _ => .pure trivial
    refine Mirrors.bind
      (newPointerOver_meets (fun w => newPointee_meets name w ret) t₀).to_extending
      (newPointerOver_mirrors (fun w => newPointee_meets name w ret)
        (fun h => newPointee_mirrors name h ret) h) ?_ ?_
    · intro r w _ hr
      refine Meets.bind (newSlots_meets w params).to_extending fun slots z hwz hslots => ?_
      exact hfunction (hwz.arena.isPointer hr) hslots
    · intro r' t₁ r ρ₁ s₁ _ hr' _ he _ hr
      refine Mirrors.bind (newSlots_meets t₁ params).to_extending (newSlots_mirrors he params)
        (fun slots z hwz hslots => hfunction (hwz.arena.isPointer hr') hslots) ?_
      intro slots' t₂ slots ρ₂ s₂ hwz hslots' _ he₂ hl hslots
      refine Mirrors.bind
        (allocate_function_meets (hwz.arena.isPointer hr') hslots').any.to_extending
        (allocate_function_mirrors he₂ (hr.later hl) hslots) (fun _ _ _ _ => .pure trivial) ?_
      intro w t₃ v ρ₃ s₃ _ _ _ he₃ _ hv
      exact Mirrors.pure he₃ ⟨congrArg some hv.1, fun f hf => Option.some.inj hf ▸ hv.2⟩
  | .builtin _ => by
    rw [newPointee]
    exact Mirrors.pure h ⟨rfl, fun f hf => nomatch hf⟩
  | .record _ => by
    rw [newPointee]
    exact Mirrors.pure h ⟨rfl, fun f hf => nomatch hf⟩

theorem newSlots_mirrors {t₀ s : Session} {ρ : Renaming} (h : s.Embeds ρ t) :
    (tys : List CType) → Mirrors .extending t (newSlots tys) t₀ (newSlots tys) ρ s SameSlots
  | [] => by
    rw [newSlots]
    exact Mirrors.pure h ⟨rfl, fun slot hslot => nomatch hslot⟩
  | ty :: rest => by
    rw [newSlots]
    refine Mirrors.bind (newPointerOver_meets (fun w => newPointee_meets "" w ty) t₀).to_extending
      (newPointerOver_mirrors (fun w => newPointee_meets "" w ty)
        (fun h => newPointee_mirrors "" h ty) h) ?_ ?_
    · exact fun _ w _ _ => Meets.bind (newSlots_meets w rest).to_extending
        fun _ _ _ _ => .pure trivial
    · intro p' t₁ p ρ₁ s₁ _ _ _ he _ hp
      refine Mirrors.bind (newSlots_meets t₁ rest).to_extending (newSlots_mirrors he rest)
        (fun _ _ _ _ => .pure trivial) ?_
      intro slots' t₂ slots ρ₂ s₂ _ _ _ he₂ hl hslots
      exact Mirrors.pure he₂ (hslots.cons hp hl)

end

theorem newPointer_mirrors (ty : CType) (name : String) (itype : Option String)
    (h : s.Embeds ρ t) :
    Mirrors .extending t (newPointer ty name itype) t₀ (newPointer ty name itype) ρ s SamePointer :=
  newPointerOver_mirrors (fun w => newPointee_meets name w ty)
    (fun h => newPointee_mirrors name h ty) h

/-- A parameter is made there as it is here, forced if a macro produced it. -/
theorem newParameter_mirrors (u : TranslationUnit) (d : DeclId) (h : s.Embeds ρ t) :
    Mirrors .extending t (newParameter u d) t₀ (newParameter u d) ρ s SamePointer := by
  apply Mirrors.bind_lift
  intro p _
  have hbound (v : VarId) (w : Session) :
      Meets .extending (discard (boundBelow v .leastSafe)) w fun _ _ => True :=
    (boundBelow_meets v .leastSafe w).any.discard.to_creates.to_extending
  refine Mirrors.bind (newPointer_meets _ _ _ t₀).to_extending (newPointer_mirrors _ _ _ h) ?_ ?_
  · intro v w _ _
    dsimp only
    split
    · exact (hbound v w).bind fun _ _ _ _ => .pure trivial
    · exact .pure trivial
  · intro v' t₁ v ρ₁ s₁ _ _ _ he _ hv
    dsimp only
    split
    · have hboth : Mirrors .extending t (discard (boundBelow v' .leastSafe)) t₁
          (discard (boundBelow v .leastSafe)) ρ₁ s₁ fun _ _ _ _ => True := by
        refine Mirrors.discard (Mirrors.of_fits (boundBelow_persists v' .leastSafe t₁)
          fun _ t₂ hends ht₂ => ?_)
        have hsaid := ((boundBelow_stated v' .leastSafe t₁).of_ends hends).2.extends ht₂
        exact (boundBelow_notes he (Arena.lt_of_isPointer hv.2) (hv.1 ▸ hsaid)).mono
          fun _ _ _ _ _ _ => trivial
      exact Mirrors.bind (hbound v' t₁) hboth (fun _ _ _ _ => .pure trivial)
        fun _ _ _ _ _ _ _ _ he₂ hl _ => Mirrors.pure he₂ (hv.later hl)
    · exact Mirrors.pure he hv

/-- Parameters are made in the same order there. -/
theorem newParameters_mirrors (u : TranslationUnit) (ds : List DeclId) (h : s.Embeds ρ t) :
    Mirrors .extending t (newParameters u ds) t₀ (newParameters u ds) ρ s SameSlots := by
  induction ds generalizing t₀ s ρ with
  | nil => exact Mirrors.pure h ⟨rfl, fun slot hslot => nomatch hslot⟩
  | cons d rest ih =>
    refine Mirrors.bind (newParameter_meets u d t₀).to_extending (newParameter_mirrors u d h)
      (fun _ w _ _ => Meets.bind (newParameters_meets u rest w).to_extending
        fun _ _ _ _ => .pure trivial) ?_
    intro p' t₁ p ρ₁ s₁ _ _ _ he _ hp
    refine Mirrors.bind (newParameters_meets u rest t₁).to_extending (ih he)
      (fun _ _ _ _ => .pure trivial) ?_
    intro slots' t₂ slots ρ₂ s₂ _ _ _ he₂ hl hslots
    exact Mirrors.pure he₂ (hslots.cons hp hl)

theorem newParameters_persists (u : TranslationUnit) (ds : List DeclId) :
    Persists (newParameters u ds) := by
  have hparam (d : DeclId) : Persists (newParameter u d) := by
    apply Persists.bind_lift
    intro p _
    apply Persists.bind fun _ => newPointer_failsOnly _ _ _
    intro v
    dsimp only
    split
    · exact (boundBelow_persists v .leastSafe).discard.bind fun _ => .pure
    · exact .pure
  induction ds with
  | nil => exact .pure
  | cons d rest ih => exact (hparam d).bind fun _ => ih.bind fun _ => .pure

/-- Making a function fails only for a broken rule. -/
theorem newFunction_persists (u : TranslationUnit) (func : DeclId) :
    Persists (newFunction u func) := by
  apply Persists.bind_lift
  intro d _
  split
  · apply Persists.bind fun _ => newPointer_failsOnly _ _ _
    exact fun _ => (newParameters_persists u _).bind fun _ _ => allocate_failsOnly _
  · exact .fault

/-- The signature of a function is made alike in both runs. -/
theorem newFunction_mirrors (u : TranslationUnit) (func : DeclId) (h : s.Embeds ρ t) :
    Mirrors .extending t (newFunction u func) t₀ (newFunction u func) ρ s
      fun w v ρ' s' => w = ρ'.var v ∧ s'.arena.isFunction v := by
  apply Mirrors.bind_lift
  intro d _
  split
  · next signature params _ _ _ =>
    refine Mirrors.bind (newPointer_meets _ _ _ t₀).to_extending (newPointer_mirrors _ _ _ h) ?_ ?_
    · intro r w _ hr
      refine Meets.bind (newParameters_meets u params w).to_extending fun slots z hwz hslots => ?_
      exact (allocate_function_meets (hwz.arena.isPointer hr) hslots).any.to_extending
    · intro r' t₁ r ρ₁ s₁ _ hr' _ he _ hr
      refine Mirrors.bind (newParameters_meets u params t₁).to_extending
        (newParameters_mirrors u params he) ?_ ?_
      · exact fun slots z hwz hslots =>
          (allocate_function_meets (hwz.arena.isPointer hr') hslots).any.to_extending
      · intro slots' t₂ slots ρ₂ s₂ _ _ _ he₂ hl hslots
        exact allocate_function_mirrors he₂ (hr.later hl) hslots
  · exact Mirrors.fault

end Session

end CheckedPointers
