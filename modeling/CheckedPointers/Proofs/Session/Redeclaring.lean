import CheckedPointers.Proofs.Session.Bare
import CheckedPointers.Proofs.Session.MirroredCreation
import CheckedPointers.Proofs.Session.Placing
import CheckedPointers.Proofs.Source.Listing

/-!
Declarations at one anchor. Where units agree on what stands there, the variable of a declarator is
made in the same way by all of them, whichever comes first.
-/
namespace CheckedPointers

open Op TranslationUnit

namespace Session

variable {u w : TranslationUnit} {f g : DeclId} {d e : Decl} {s t : Session} {v : VarId}

/-! ## Alike from every unit -/

theorem newParameter_eq (hagree : u.Agrees w) (hd : u.decl f = .ok d) (he : w.decl g = .ok e)
    (ha : d.anchor = e.anchor) : newParameter u f = newParameter w g := by
  have h := (hagree d (mem_decls hd) e (mem_decls he) ha).1
  rw [newParameter, newParameter, hd, he, lift_ok_bind, lift_ok_bind,
    Decl.eq_of_outline Decl.outline_ty? h, Decl.eq_of_outline (g := Decl.name) (fun _ => rfl) h,
    Decl.eq_of_outline Decl.outline_itype? h,
    Decl.eq_of_outline (g := Decl.isRewritable) (fun _ => rfl) h]

/-- A parameter that the unit does not have. -/
theorem newParameter_unknown (h : u.decls[f]? = none) :
    newParameter u f = Op.fault .unknownId := by
  have hdecl : u.decl f = .error .unknownId := by rw [decl, h]
  rw [newParameter, hdecl, lift_error_bind]

/-- Units that agree on their parameters make the same ones. -/
theorem newParameters_eq (hagree : u.Agrees w) {ids ids' : List DeclId}
    (h : ids.map (fun p => u.decls[p]?.map Decl.anchor) =
      ids'.map fun p => w.decls[p]?.map Decl.anchor) :
    newParameters u ids = newParameters w ids' := by
  induction ids generalizing ids' with
  | nil =>
    obtain rfl := List.map_eq_nil_iff.1 h.symm
    rfl
  | cons p rest ih =>
    obtain ⟨q, rest', rfl, hpq, hrest⟩ := List.map_eq_cons_iff.1 h.symm
    dsimp only at hpq
    have hparam : newParameter u p = newParameter w q := by
      cases hp : u.decls[p]? with
      | none =>
        rw [hp] at hpq
        rw [newParameter_unknown hp, newParameter_unknown (Option.map_eq_none_iff.1 hpq)]
      | some x =>
        rw [hp] at hpq
        obtain ⟨y, hy, hanchor⟩ := Option.map_eq_some_iff.1 hpq
        exact newParameter_eq hagree (decl_eq_ok.2 hp) (decl_eq_ok.2 hy) hanchor.symm
    rw [newParameters, newParameters, hparam, ih hrest.symm]

/-- A function is made alike from each of its declarations. -/
theorem newFunction_eq (hagree : u.Agrees w) (hd : u.decl f = .ok d) (he : w.decl g = .ok e)
    (ha : d.anchor = e.anchor) : newFunction u f = newFunction w g := by
  obtain ⟨h, hparams⟩ := hagree d (mem_decls hd) e (mem_decls he) ha
  have hname : d.name = e.name := Decl.eq_of_outline (g := Decl.name) (fun _ => rfl) h
  have hbody := Decl.eq_of_outline Decl.outline_hasBody h
  have hkind := congrArg Decl.kind h
  rw [newFunction, newFunction, hd, he, lift_ok_bind, lift_ok_bind, hname, hbody]
  simp only [paramAnchors, Decl.params] at hparams
  simp only [Decl.outline] at hkind
  cases hdk : d.kind <;> cases hek : e.kind <;> simp only [hdk, hek, reduceCtorEq] at hkind ⊢
  obtain ⟨rfl, -, rfl, -⟩ := DeclKind.function.inj hkind
  rw [hdk, hek] at hparams
  rw [newParameters_eq hagree hparams]

def newVariable (u : TranslationUnit) (id : DeclId) (d : Decl) : Op VarId :=
  if d.isFunction then newFunction u id else newPointer (d.ty?.getD .int) d.name d.itype?

/-- A declarator is given its variable alike in every unit that has it. -/
theorem newVariable_eq (hagree : u.Agrees w) (hd : u.decl f = .ok d) (he : w.decl g = .ok e)
    (ha : d.anchor = e.anchor) : newVariable u f d = newVariable w g e := by
  have h := (hagree d (mem_decls hd) e (mem_decls he) ha).1
  rw [newVariable, newVariable, newFunction_eq hagree hd he ha, Decl.isFunction_of_outline h,
    Decl.eq_of_outline Decl.outline_ty? h, Decl.eq_of_outline (g := Decl.name) (fun _ => rfl) h,
    Decl.eq_of_outline Decl.outline_itype? h]

theorem newVariable_creates (u : TranslationUnit) (id : DeclId) (d : Decl) (s : Session) :
    Meets .creates (newVariable u id d) s fun v t => v < t.arena.size := by
  unfold newVariable
  split
  · refine (newFunction_meets u id s).mono fun v t _ ⟨_, _, _, _, hf, _⟩ => ?_
    exact Arena.lt_of_function? hf
  · exact (newPointer_meets _ _ _ s).mono fun v t _ => Arena.lt_of_isPointer

theorem newVariable_sameStore (u : TranslationUnit) (id : DeclId) (d : Decl) :
    Matches SameStore Eq (newVariable u id d) (newVariable u id d) := by
  unfold newVariable
  split
  · exact newFunction_sameStore u id
  · exact newPointer_sameStore _ _ _

theorem newVariable_mirrors (u : TranslationUnit) (id : DeclId) (d : Decl) {t t₀ : Session}
    {ρ : Renaming} (h : s.Embeds ρ t) :
    Mirrors .extending t (newVariable u id d) t₀ (newVariable u id d) ρ s
      fun w v ρ' _ => w = ρ'.var v := by
  unfold newVariable
  split
  · exact (newFunction_mirrors u id h).mono fun _ _ _ _ _ _ hv => hv.1
  · exact (newPointer_mirrors _ _ _ h).mono fun _ _ _ _ _ _ hv => hv.1

/-- In an earlier session the declarator was given this variable. -/
def Stems (u : TranslationUnit) (id : DeclId) (d : Decl) (s : Session) (v : VarId) : Prop :=
  ∃ r r', (newVariable u id d).Ends r v r' ∧ r'.bare.Extends s.bare

theorem Stems.bare (h : Stems u f d s v) (hst : s.bare.Extends t.bare) : Stems u f d t v := by
  obtain ⟨r, r', hends, hext⟩ := h
  exact ⟨r, r', hends, hext.trans hst⟩

/-- What is made for a declarator stands where the variable does that was made for it elsewhere. -/
theorem Stems.embeds {made : Session} {ρ : Renaming} {x : VarId} (hv : Stems u f d t x)
    (h : s.bare.Embeds ρ t.bare) (hends : (newVariable u f d).Ends s v made) :
    ∃ ρ', made.bare.Embeds ρ' t.bare ∧ Later ρ ρ' s.bare made.bare ∧ ρ'.var v = x := by
  have hbare {r r' : Session} {y : VarId} (hr : (newVariable u f d).Ends r y r') :
      (newVariable u f d).Ends r.bare y r'.bare :=
    ends_bare (newVariable_sameStore u f d) (newVariable_creates u f d) hr
  obtain ⟨r, r', hmade, hext⟩ := hv
  obtain ⟨v', ρ', s', hends', he, hl, hx⟩ :=
    (newVariable_mirrors u f d h).of_ends (hbare hmade) hext
  obtain ⟨rfl, rfl⟩ := hends'.unique (hbare hends)
  exact ⟨ρ', he, hl, hx.symm⟩

/-! ## Giving -/

/-- A declarator is given its variable where nothing of its kind stands. -/
structure GivesNew (u : TranslationUnit) (id : DeclId) (d : Decl) (s t : Session) : Prop where
  isDeclarator : d.isDeclarator
  vacant : ∀ x ∈ s.storedAt d.anchor, ¬ d.Suits s.arena x
  puts : ∃ v made, (newVariable u id d).Ends s v made ∧ s.Creates made ∧ d.Suits made.arena v ∧
    made.Puts t fun a x => a = d.anchor ∧ x = v ∨
      ∃ f, made.arena.function? v = some f ∧ PutsSlots u d f a x

/-- A function that is put at its anchor is given anew there. -/
theorem PutsFunction.gives {ty : CType} (h : PutsFunction u f d s t) (hty : d.ty? = some ty)
    (hfun : ty.isFunction) : GivesNew u f d s t := by
  obtain ⟨v, g, made, hends, hmade, hg, -, hputs⟩ := h.puts
  refine ⟨(Decl.isDeclarator_of_isFunction h.isFunction).1,
    fun x hx hsuits => h.vacant x hx (hsuits.isFunction hty hfun), v, made, ?_, hmade,
    ⟨ty, hty, .inl ⟨hfun, Arena.isFunction_iff.2 ⟨g, hg⟩⟩⟩, hputs.congr fun a x => ?_⟩
  · rwa [newVariable, if_pos h.isFunction]
  · simp [hg]

/-- A pointer that is put at an anchor is given anew there. -/
theorem PutsPointer.gives {ty : CType} (h : PutsPointer d ty s t) (hty : d.ty? = some ty)
    (hdecl : d.isDeclarator) (u : TranslationUnit) (id : DeclId) : GivesNew u id d s t := by
  obtain ⟨v, made, hends, hmade, hv, hputs⟩ := h.puts
  have hno := CType.not_isFunction_of_isPointer h.isPointer
  refine ⟨hdecl, fun x hx hsuits => h.free x hx (hsuits.isPointer hty hno), v, made, ?_, hmade,
    ⟨ty, hty, .inr ⟨h.isPointer, hv⟩⟩, hputs.congr fun a x => ?_⟩
  · rw [newVariable, if_neg fun hfun => hno (Decl.ty_isFunction_of_isFunction hfun hty), hty]
    exact hends
  · have hnone : made.arena.function? v = none := by
      simpa [Arena.isFunction] using Arena.not_isFunction hv
    simp [hnone]

def Forces (d : Decl) (s t : Session) : Prop :=
  if d.isDeclarator ∧ d.inMacro then
    (discard (boundSet (s.storedAt d.anchor) .leastSafe)).Ends s ⟨⟩ t
  else t = s

theorem forces_self (h : ¬ (d.isDeclarator ∧ d.inMacro)) : Forces d s s := by
  rw [Forces, if_neg h]

/-- A declarator is given its variable anew, or there was one; in both cases a macro forces all that
stands there. -/
theorem giveVariables_gives (hd : u.decl f = .ok d) (s : Session) :
    Meets .any (giveVariables u f) s fun _ t =>
      ∃ w, (w = s ∨ GivesNew u f d s w) ∧ Forces d w t := by
  refine Meets.bind_requireOpen fun _ _ => ?_
  rw [hd, lift_ok_bind]
  split
  · next ty hdecl hty =>
    refine Meets.bind (giveFunction_puts hd ty s) fun _ t _ hfunction => ?_
    refine Meets.bind (givePointer_puts d ty t) fun _ w _ hpointer => ?_
    have hgives : w = s ∨ GivesNew u f d s w := by
      rcases hpointer with ⟨rfl, -⟩ | hpointer
      · rcases hfunction with ⟨rfl, -⟩ | ⟨hfun, hputs⟩
        · exact .inl rfl
        · exact .inr (hputs.gives hty hfun)
      · rcases hfunction with ⟨rfl, -⟩ | ⟨hfun, -⟩
        · exact .inr (hpointer.gives hty hdecl u f)
        · exact absurd hfun (CType.not_isFunction_of_isPointer hpointer.isPointer)
    dsimp only
    split
    · next hflagged =>
      have hmacro : d.isDeclarator ∧ d.inMacro := ⟨hdecl, by simpa [Decl.isRewritable] using hflagged⟩
      refine Meets.bind_get ?_
      split
      · next set hset =>
        have hstored : w.storedAt d.anchor = set := by rw [storedAt, hset, Option.getD_some]
        refine Meets.bind ((Meets.discard (Q := fun _ _ => True)
          (boundSet_meets set .leastSafe w).any).run.widen fun _ _ => trivial)
          fun _ z _ hends => Meets.pure ⟨w, hgives, ?_⟩
        rw [Forces, if_pos hmacro, hstored]
        exact hends.1
      · next hnone =>
        refine Meets.pure ⟨w, hgives, ?_⟩
        rw [Forces, if_pos hmacro, storedAt, hnone]
        exact ends_discard.2 ⟨_, ends_pure.2 ⟨rfl, rfl⟩⟩
    · next hflagged =>
      refine Meets.pure ⟨w, hgives, forces_self ?_⟩
      rintro ⟨-, hmacro⟩
      exact hflagged (by simp [Decl.isRewritable, hmacro])
  · next hno =>
    refine Meets.pure ⟨s, .inl rfl, forces_self ?_⟩
    rintro ⟨hdecl, -⟩
    obtain ⟨ty, hty⟩ := Decl.exists_ty_of_isDeclarator hdecl
    exact hno ty hdecl hty

end Session

end CheckedPointers
