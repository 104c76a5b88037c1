import CheckedPointers.Proofs.Session.Bodies
import CheckedPointers.Proofs.Session.Origins

/-!
Keys and names. As long as no name contains a colon, the key of a declaration tells its file, line
and name, though files may contain colons. So the variables noted under a key are functions of the
name that the key was made of, and what is linked with a definition has the definition's name.
-/
namespace CheckedPointers

open Op

/-! ## Keys -/

section Separators

variable {α : Type} {a : α} {l m l' m' : List α}

/-- The last separator splits a list in one way. -/
theorem append_cons_inj (hm : a ∉ m) (hm' : a ∉ m') (h : l ++ a :: m = l' ++ a :: m') :
    l = l' ∧ m = m' := by
  -- if one list reaches further, its separator stands behind that of the other
  have hshort {l l' m m' k : List α} (hm : a ∉ m) (hl : l' = l ++ k)
      (h : a :: m = k ++ a :: m') : l = l' ∧ m = m' := by
    cases k with
    | nil => exact ⟨by rw [hl, List.append_nil], (List.cons.inj h).2⟩
    | cons b k =>
      refine absurd ?_ hm
      rw [(List.cons.inj h).2]
      exact List.mem_append_right k List.mem_cons_self
  rcases List.append_eq_append_iff.1 h with ⟨k, hl, hk⟩ | ⟨k, hl, hk⟩
  · exact hshort hm hl hk
  · exact (hshort hm' hl hk).imp Eq.symm Eq.symm

end Separators

namespace FunctionKey

variable {file file' name name' : String} {line line' : Nat}

theorem colon_not_mem_repr (n : Nat) : ':' ∉ n.repr.toList := by
  intro h
  rw [Nat.toList_repr] at h
  exact absurd (Nat.isDigit_of_mem_toDigits (by decide) (by decide) h) (by decide)

/-- Equal keys of names without a colon have equal parts. -/
theorem of_inj (hname : ':' ∉ name.toList) (hname' : ':' ∉ name'.toList) :
    of file line name = of file' line' name' ↔ file = file' ∧ line = line' ∧ name = name' := by
  refine ⟨fun h => ?_, fun ⟨hf, hl, hn⟩ => by rw [hf, hl, hn]⟩
  have htext : ∀ (file : String) (line : Nat) (name : String), (of file line name).text.toList =
      (file.toList ++ ':' :: line.repr.toList) ++ ':' :: name.toList := by
    intro file line name
    have hcolon : (":" : String).toList = [':'] := rfl
    simp only [of, String.toList_append, hcolon, List.append_assoc, List.cons_append,
      List.nil_append]
  have hlists := congrArg (fun key => key.text.toList) h
  simp only [htext] at hlists
  obtain ⟨hfront, hnames⟩ := append_cons_inj hname hname' hlists
  obtain ⟨hfiles, hlines⟩ :=
    append_cons_inj (colon_not_mem_repr line) (colon_not_mem_repr line') hfront
  refine ⟨String.toList_inj.1 hfiles, ?_, String.toList_inj.1 hnames⟩
  have hdigits := congrArg (Nat.ofDigitChars 10 · 0) hlines
  simpa only [Nat.toList_repr, Nat.ofDigitChars_ten_toDigits] using hdigits

end FunctionKey

namespace Session

variable {s t : Session} {u : TranslationUnit} {d : Decl} {v : VarId} {key : FunctionKey}
  {D : Decl → Prop} {options : Options}

/-! ## Names in the tables -/

def IsNamed (s : Session) (v : VarId) (name : String) : Prop :=
  ∃ f, s.arena.function? v = some f ∧ f.name = name

theorem IsNamed.extends {name : String} (h : s.IsNamed v name) (hst : s.Extends t) :
    t.IsNamed v name := by
  obtain ⟨f, hf, hname⟩ := h
  exact ⟨f, hst.arena.function? hf, hname⟩

/-- What is noted under a key is named as one of the declarations `D` with that key, and keys are
linked if they are of declarations of one name. -/
structure Keyed (D : Decl → Prop) (s : Session) : Prop where
  definitions : ∀ e ∈ s.pairing.definitions, ∀ v ∈ e.2, ∃ d, D d ∧ d.key = e.1 ∧ s.IsNamed v d.name
  declarations : ∀ key, ∀ v ∈ s.pairing.declaredUnder key,
    ∃ d, D d ∧ d.key = key ∧ s.IsNamed v d.name
  pairs : ∀ key key', s.pairing.pairedKey? key = some key' →
    ∃ d d', D d ∧ D d' ∧ d.key = key ∧ d'.key = key' ∧ d'.name = d.name

theorem keyed_new (options : Options) : (new options).Keyed D where
  definitions _ he := absurd he List.not_mem_nil
  declarations _ v hv := absurd hv (VarSet.not_mem_empty v)
  pairs _ _ h := nomatch h

/-- Names under keys stay right as long as the tables are the same. -/
theorem Keyed.same (h : s.Keyed D) (hst : s.Extends t) (hpairing : t.pairing = s.pairing) :
    t.Keyed D where
  definitions e he v hv := by
    rw [hpairing] at he
    obtain ⟨d, hd, hkey, hname⟩ := h.definitions e he v hv
    exact ⟨d, hd, hkey, hname.extends hst⟩
  declarations key v hv := by
    rw [hpairing] at hv
    obtain ⟨d, hd, hkey, hname⟩ := h.declarations key v hv
    exact ⟨d, hd, hkey, hname.extends hst⟩
  pairs key key' hkey := h.pairs key key' (hpairing ▸ hkey)

/-- A function variable is noted for a declaration. -/
theorem Keyed.records {prototype : Option FunctionKey} (h : s.Keyed D) (hst : s.Extends t)
    (hpairing : t.pairing = s.pairing.record d v prototype) (hd : D d) (hv : t.IsNamed v d.name)
    (hprototype : d.hasBody → ∀ key, prototype = some key →
      ∃ d', D d' ∧ d'.key = key ∧ d'.name = d.name) : t.Keyed D where
  definitions e he w hw := by
    rw [hpairing] at he
    rcases Pairing.mem_definitions_record he hw with ⟨rfl, -, hkey⟩ | ⟨e', he', hkey, hw⟩
    · exact ⟨d, hd, hkey.symm, hv⟩
    · obtain ⟨d', hd', hkey', hname⟩ := h.definitions e' he' w hw
      exact ⟨d', hd', hkey'.trans hkey, hname.extends hst⟩
  declarations key w hw := by
    rw [hpairing, Pairing.mem_declaredUnder_record] at hw
    rcases hw with hw | ⟨-, rfl, rfl⟩
    · obtain ⟨d', hd', hkey', hname⟩ := h.declarations key w hw
      exact ⟨d', hd', hkey', hname.extends hst⟩
    · exact ⟨d, hd, rfl, hv⟩
  pairs key key' hkey := by
    rw [hpairing, Pairing.pairedKey?_record] at hkey
    split at hkey
    · next hrecorded =>
      obtain ⟨d', hd', hkey', hname⟩ := hprototype hrecorded.1 key' hkey
      exact ⟨d, d', hd, hd', hrecorded.2.1.symm, hkey', hname⟩
    · exact h.pairs key key' hkey

/-- A signature is made on demand for a declaration. -/
theorem Keyed.signs (h : s.Keyed D) (hd : D d) (hv : s.IsNamed v d.name) :
    (s.withSignature d.key v).Keyed D where
  definitions := h.definitions
  declarations key w hw := by
    rcases Pairing.mem_declaredUnder_declare.1 hw with hw | ⟨rfl, rfl⟩
    · exact h.declarations key w hw
    · exact ⟨d, hd, rfl, hv⟩
  pairs := h.pairs

end Session

def Frame.keyed (D : Decl → Prop) : Frame where
  rel s t := s.WellFormed → s.Keyed D → t.WellFormed ∧ t.Keyed D
  refl _ hs h := ⟨hs, h⟩
  trans h h' hs hkeyed := h' (h hs hkeyed).1 (h hs hkeyed).2

namespace Session

variable {s t : Session} {u : TranslationUnit} {d : Decl} {v : VarId} {key : FunctionKey}
  {D : Decl → Prop} {options : Options}

theorem keyed_of_same (hst : s.Extends t) (hpairing : t.pairing = s.pairing) :
    (Frame.keyed D).rel s t := fun hs h => ⟨hst.wellFormed hs, h.same hst hpairing⟩

section

variable (hu : ∀ d ∈ u.decls, D d)

include hu

theorem of_decl {id : DeclId} (hd : u.decl id = .ok d) : D d :=
  hu d (Array.mem_of_getElem? (TranslationUnit.decl_eq_ok.1 hd))

/-- Giving variables notes a function under the key of its own declaration. -/
theorem giveVariables_keyed (id : DeclId) (hs : s.WellFormed) :
    Meets (.keyed D) (giveVariables u id) s fun _ _ => True := by
  have hgave : Meets .any (giveVariables u id) s fun _ t => Gave u id s t :=
    (giveVariables_gave u id hs).widen fun _ _ => trivial
  refine Meets.any (Meets.of_faulty hgave.run (giveVariables_faulty id hs)
    fun _ t ⟨hends, hgave⟩ => ?_)
  have hst : s.Extends t := ((giveVariables_meets u id hs).of_ends hends).1.toExtends
  obtain ⟨-, hpairing⟩ | ⟨v, d, hmakes⟩ := hgave
  · exact keyed_of_same hst hpairing
  · obtain ⟨f, hf, hname, -⟩ := hmakes.var
    obtain ⟨prototype, hp, hpairing⟩ := hmakes.recorded
    refine fun hs h => ⟨hst.wellFormed hs, h.records hst hpairing (of_decl hu hmakes.decl)
      ⟨f, hf, hname⟩ fun hbody key hkey => ?_⟩
    obtain ⟨p, hprototype, hkeyOf⟩ := (hp hbody key).2 hkey
    obtain ⟨q, hq, -, hqname, -⟩ := TranslationUnit.prototypeOf_spec hmakes.decl hprototype
    exact ⟨q, of_decl hu hq, (TranslationUnit.keyOf_eq_ok hq).1 hkeyOf, hqname⟩

omit hu in
theorem noteFunction_keyed (func : DeclId) (s : Session) :
    Meets (.keyed D) (noteFunction u func) s fun _ _ => True := by
  refine Meets.any (Meets.of_faulty (noteFunction_noted u func s).run
    (noteFunction_faulty func s) fun _ t ⟨hends, d, _, ht⟩ => ?_)
  have hst : s.Extends t := ((noteFunction_meets u func s).of_ends hends).1.toExtends
  refine keyed_of_same hst ?_
  subst ht
  split <;> rfl

/-- The signature is made for the declaration that its key is of. -/
theorem implicitPrototype_keyed (func : DeclId) (s : Session) :
    Meets (.keyed D) (implicitPrototype u func) s fun _ _ => True := by
  refine Meets.bind_requireOpen fun _ _ => Meets.bind_lift fun key hkey => Meets.bind_get ?_
  split
  · exact Meets.pure trivial
  · next hnone =>
    refine Meets.bind_lift fun definition hdefinition => ?_
    refine Meets.bind ((newFunction_meets u _ s).frame.widen fun t (hst : s.Creates t) =>
      keyed_of_same hst.toExtends hst.sameDeclarations.pairing)
      fun v t _ ⟨(hst : s.Creates t), d, f, hd, _, hf, hname, _⟩ => ?_
    obtain rfl : d.key = key := by
      rw [TranslationUnit.pairingKey, hdefinition] at hkey
      exact (TranslationUnit.keyOf_eq_ok hd).1 hkey
    have hfree : t.implicits.find? d.key = none := by rw [hst.only]; exact hnone
    have hfun : t.arena.isFunction v := Arena.isFunction_iff.2 ⟨f, hf⟩
    suffices hsigns : (Frame.keyed D).rel t (t.withSignature d.key v) from ⟨hsigns, trivial⟩
    exact fun ht h => ⟨(visits_withSignature hfree hfun).wellFormed ht,
      h.signs (of_decl hu hd) ⟨f, hf, hname⟩⟩

end

theorem keyed_admitsDeclaring (D : Decl → Prop) :
    (Frame.keyed D).AdmitsDeclaring fun u => ∀ d ∈ u.decls, D d where
  free hs hwf := absurd hwf hs
  same hst hsame := keyed_of_same hst hsame.pairing
  gives hu id := Stays.of_meets (fun hs hwf => absurd hwf hs) fun _ hs =>
    giveVariables_keyed hu id hs
  notes _ func s := noteFunction_keyed func s
  implicit hu func s := implicitPrototype_keyed hu func s

/-! ## Sessions that can come about -/

def Met (rs : List Request) (d : Decl) : Prop := ∃ r ∈ rs, ∃ u ∈ r.unit?, d ∈ u.decls

/-- Whatever is asked for about units whose declarations are among `D`. -/
theorem Keyed.requests {rs : List Request} (hs : Reachable options s)
    (hrs : ∀ d, Met rs d → D d) (h : (Session.requests rs).Ends s ⟨⟩ t) (hkeyed : s.Keyed D) :
    t.Keyed D := by
  refine relates_of_requests (P := fun s t => s.Keyed D → t.Keyed D) (fun _ h => h)
    (fun _ _ _ _ hst htw h => htw (hst h)) (fun r hr s b t hs hends hkeyed => ?_) hs h hkeyed
  have hrun : Stays (.keyed D) r.run :=
    r.run_stays (keyed_admitsDeclaring D) fun u hu d hd => hrs d ⟨r, hr, u, hu, hd⟩
  exact ((hrun.attempt s).of_ends hends).1 hs.wellFormed hkeyed |>.2

/-- The variable is a function whose name is the one that the key was made of: the key is that of a
declaration with this name, and of no other name without a colon. -/
def BearsName (s : Session) (rs : List Request) (key : FunctionKey) (v : VarId) : Prop :=
  ∃ f, s.arena.function? v = some f ∧ (∃ d, Met rs d ∧ d.key = key ∧ d.name = f.name) ∧
    ∀ file line name, ':' ∉ name.toList → FunctionKey.of file line name = key → name = f.name

/-- Keys of names without a colon tell file, line and name, whatever the file. So whatever is asked
for about units without a colon in their names, in whatever order, each variable noted under a key
is a function of the name that the key was made of, and what is paired with a definition are
functions of the definition's name. -/
theorem requests_bear_names {rs : List Request}
    (hplain : ∀ d, Met rs d → ':' ∉ d.name.toList)
    (h : (Session.requests rs).Ends (new options) ⟨⟩ s) :
    (∀ file line name file' line' name', ':' ∉ name.toList → ':' ∉ name'.toList →
      FunctionKey.of file line name = .of file' line' name' →
        file = file' ∧ line = line' ∧ name = name') ∧
    (∀ e ∈ s.pairing.definitions, ∀ v ∈ e.2, s.BearsName rs e.1 v) ∧
    (∀ key set, s.pairing.declared? key = some set → ∀ v ∈ set, s.BearsName rs key v) ∧
    ∀ e ∈ s.pairing.definitions, ∀ set, s.pairing.paired? e.1 = some set → ∀ w ∈ set,
      ∃ g, s.arena.function? w = some g ∧
        (∀ file line name, ':' ∉ name.toList → FunctionKey.of file line name = e.1 →
          name = g.name) ∧
        ∀ v ∈ e.2, ∃ f, s.arena.function? v = some f ∧ g.name = f.name := by
  have hkeyed : s.Keyed (Met rs) := (keyed_new options).requests .new (fun _ => id) h
  -- the key of a declaration that was met is made of no other name
  have hname : ∀ {d file line name}, Met rs d → ':' ∉ name.toList →
      FunctionKey.of file line name = d.key → name = d.name := fun hd hname hkey =>
    ((FunctionKey.of_inj hname (hplain _ hd)).1 hkey).2.2
  have hsame : ∀ {d d'}, Met rs d → Met rs d' → d.key = d'.key → d.name = d'.name :=
    fun hd hd' => hname hd' (hplain _ hd)
  have hbears : ∀ {d key v}, Met rs d → d.key = key → s.IsNamed v d.name →
      s.BearsName rs key v := by
    rintro d _ v hd rfl ⟨f, hf, hfname⟩
    exact ⟨f, hf, ⟨d, hd, rfl, hfname.symm⟩, fun file line name hplain hkey =>
      (hname hd hplain hkey).trans hfname.symm⟩
  have hdeclared : ∀ key set, s.pairing.declared? key = some set → ∀ v ∈ set,
      ∃ d, Met rs d ∧ d.key = key ∧ s.IsNamed v d.name := fun key set hset v hv =>
    hkeyed.declarations key v (by rwa [Pairing.declaredUnder, hset])
  refine ⟨fun _ _ _ _ _ _ hplain hplain' => (FunctionKey.of_inj hplain hplain').1, ?_, ?_, ?_⟩
  · intro e he v hv
    obtain ⟨d, hd, hkey, hnamed⟩ := hkeyed.definitions e he v hv
    exact hbears hd hkey hnamed
  · intro key set hset v hv
    obtain ⟨d, hd, hkey, hnamed⟩ := hdeclared key set hset v hv
    exact hbears hd hkey hnamed
  · intro e he set hpaired w hw
    obtain ⟨key, hkey, hset⟩ := Option.bind_eq_some_iff.1 hpaired
    obtain ⟨d, d', hd, hd', hdkey, hdkey', hlinked⟩ := hkeyed.pairs e.1 key hkey
    obtain ⟨d'', hd'', hdkey'', g, hg, hgname⟩ := hdeclared key set hset w hw
    have hgd : g.name = d.name := by
      rw [hgname, hsame hd'' hd' (hdkey''.trans hdkey'.symm), hlinked]
    refine ⟨g, hg, fun file line name hplain hkey => ?_, fun v hv => ?_⟩
    · rw [hgd]
      exact hname hd hplain (hkey.trans hdkey.symm)
    · obtain ⟨c, hc, hckey, f, hf, hfname⟩ := hkeyed.definitions e he v hv
      exact ⟨f, hf, by rw [hgd, hfname, hsame hd hc (hdkey.trans hckey.symm)]⟩

/-- A function with a prototype and one without, in a file whose name looks like a key. -/
def colonUnit : TranslationUnit :=
  let signature : Signature := ⟨.pointer .int, [], false, true⟩
  { id := 0
    file := "c:1:a"
    decls := #[
      ⟨"f", ⟨"c:1:a", 1, 1⟩, false, .function signature [] true none⟩,
      ⟨"f", ⟨"c:1:a", 2, 1⟩, false, .function signature [] true (some [])⟩,
      ⟨"g", ⟨"c:1:a", 3, 1⟩, false, .function signature [] true (some [])⟩]
    exprs := #[]
    topLevel := [0, 1, 2] }

def colonRequests : List Request :=
  [.enter colonUnit, .giveVariables colonUnit 0, .giveVariables colonUnit 1,
    .giveVariables colonUnit 2, .implicitPrototype colonUnit 2]

/-- Keys stay apart although the name of the file looks like one. -/
theorem requests_bear_names_colonUnit :
    ∃ s set, (∀ d, Met colonRequests d → ':' ∉ d.name.toList) ∧
      (Session.requests colonRequests).Ends (new .default) ⟨⟩ s ∧
      s.pairing.definitions.map (·.1) = [.of "c:1:a" 2 "f", .of "c:1:a" 3 "g"] ∧
      (∀ v ∈ s.pairing.declaredUnder (.of "c:1:a" 3 "g"),
        s.BearsName colonRequests (.of "c:1:a" 3 "g") v) ∧
      s.pairing.paired? (.of "c:1:a" 2 "f") = some set ∧ set.members = [1] ∧
      ∀ w ∈ set, ∃ g, s.arena.function? w = some g ∧ g.name = "f" := by
  have hplain : ∀ d, Met colonRequests d → ':' ∉ d.name.toList := by
    have hdecls : ∀ d ∈ colonUnit.decls, ':' ∉ d.name.toList := by decide
    rintro d ⟨r, hr, u, hu, hd⟩
    have hunits : ∀ r ∈ colonRequests, r.unit? = some colonUnit := by
      simp [colonRequests, Request.unit?]
    rw [hunits r hr] at hu
    obtain rfl := Option.some.inj hu
    exact hdecls d hd
  obtain ⟨_, s, h, htables⟩ := exists_ends (x := Session.requests colonRequests)
    (s := .new .default)
    (g := fun _ s => (s.pairing.definitions.map (·.1),
      (s.pairing.declared? (.of "c:1:a" 3 "g")).map VarSet.members,
      (s.pairing.paired? (.of "c:1:a" 2 "f")).map VarSet.members))
    (b := ([.of "c:1:a" 2 "f", .of "c:1:a" 3 "g"], some [7], some [1])) (by decide +kernel)
  simp only [Prod.mk.injEq, Option.map_eq_some_iff] at htables
  obtain ⟨hdefinitions, ⟨declared, hdeclared, -⟩, set, hset, hmembers⟩ := htables
  obtain ⟨-, -, hbear, hpaired⟩ := requests_bear_names hplain h
  refine ⟨s, set, hplain, h, hdefinitions, fun v hv => ?_, hset, hmembers, fun w hw => ?_⟩
  · rw [Pairing.declaredUnder, hdeclared] at hv
    exact hbear _ declared hdeclared v hv
  · have hkey : FunctionKey.of "c:1:a" 2 "f" ∈ s.pairing.definitions.map (·.1) := by
      rw [hdefinitions]
      exact List.mem_cons_self
    obtain ⟨e, he, hkey⟩ := List.mem_map.1 hkey
    obtain ⟨g, hg, hname, -⟩ := hpaired e he set (hkey ▸ hset) w hw
    exact ⟨g, hg, (hname "c:1:a" 2 "f" (by decide) hkey.symm).symm⟩

end Session

end CheckedPointers
