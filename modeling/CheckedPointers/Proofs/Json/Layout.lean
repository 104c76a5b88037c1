import CheckedPointers.Proofs.Json.Literals

/-!
Texts of a document. A document has many texts, which differ in the blanks between their tokens;
both writers produce one of them, and the reader finds the document in each.
-/
namespace CheckedPointers

namespace Json

def Blanks (cs : List Char) : Prop := ∀ c ∈ cs, isBlank c = true

theorem blanks_nil : Blanks [] := List.forall_mem_nil _

mutual

/-- Integers are in the reader's range, and no literal has lost its value. -/
def Exact : Json → Prop
  | int i => -9223372036854775808 ≤ i ∧ i < 18446744073709551616
  | decimal _ | torn => False
  | list items => ExactAll items
  | object fields => ExactFields fields
  | null | bool _ | text _ => True

def ExactAll : List Json → Prop
  | [] => True
  | j :: rest => j.Exact ∧ ExactAll rest

def ExactFields : List (String × Json) → Prop
  | [] => True
  | (_, j) :: rest => j.Exact ∧ ExactFields rest

end

mutual

/-- The text is one of the document, without blanks around it. -/
inductive Spells : List Char → Json → Prop
  | scalar {j : Json} (hexact : j.Exact) (hlist : ∀ items, j ≠ .list items)
      (hobject : ∀ fields, j ≠ .object fields) : Spells (scalar j) j
  | emptyList {a : List Char} (ha : Blanks a) : Spells ('[' :: (a ++ [']'])) (.list [])
  | list {a b cs : List Char} {items : List Json} (ha : Blanks a) (h : SpellsAll cs items)
      (hb : Blanks b) : Spells ('[' :: (a ++ (cs ++ (b ++ [']'])))) (.list items)
  | emptyObject {a : List Char} (ha : Blanks a) : Spells ('{' :: (a ++ ['}'])) (.object [])
  | object {a b cs : List Char} {fields : List (String × Json)} (ha : Blanks a)
      (h : SpellsFields cs fields) (hb : Blanks b) :
      Spells ('{' :: (a ++ (cs ++ (b ++ ['}'])))) (.object fields)

inductive SpellsAll : List Char → List Json → Prop
  | one {cs : List Char} {j : Json} (h : Spells cs j) : SpellsAll cs [j]
  | more {a b cs ds : List Char} {j : Json} {items : List Json} (h : Spells cs j) (hb : Blanks b)
      (ha : Blanks a) (hrest : SpellsAll ds items) :
      SpellsAll (cs ++ (b ++ ',' :: (a ++ ds))) (j :: items)

inductive SpellsFields : List Char → List (String × Json) → Prop
  | one {a b cs : List Char} {k : String} {j : Json} (hb : Blanks b) (ha : Blanks a)
      (h : Spells cs j) : SpellsFields (quoted k ++ (b ++ ':' :: (a ++ cs))) [(k, j)]
  | more {a b c d cs ds : List Char} {k : String} {j : Json} {fields : List (String × Json)}
      (hb : Blanks b) (ha : Blanks a) (h : Spells cs j) (hc : Blanks c) (hd : Blanks d)
      (hrest : SpellsFields ds fields) :
      SpellsFields (quoted k ++ (b ++ ':' :: (a ++ (cs ++ (c ++ ',' :: (d ++ ds))))))
        ((k, j) :: fields)

end

/-! ## What a token is followed by -/

theorem skipBlanks_append {a : List Char} {c : Char} {rest : List Char} (ha : Blanks a)
    (hc : isBlank c = false) : skipBlanks (a ++ c :: rest) = c :: rest := by
  rw [skipBlanks, List.dropWhile_append_of_pos ha, List.dropWhile_cons, if_neg (by simp [hc])]

theorem not_isBlank_of_isDigit {c : Char} (h : c.isDigit = true) : isBlank c = false := by
  by_contra hblank
  simp only [Bool.not_eq_false, isBlank, Bool.or_eq_true, decide_eq_true_eq] at hblank
  rcases hblank with ((rfl | rfl) | rfl) | rfl <;> revert h <;> decide

theorem cuts_nil : Cuts [] := fun _ h => nomatch h

theorem cuts_cons {c : Char} (h : c ∈ [',', ']', '}', ' ', '\n', '\r', '\t']) (rest : List Char) :
    Cuts (c :: rest) := by
  intro d hd
  obtain rfl := Option.some.inj hd
  simp only [List.mem_cons, List.not_mem_nil, or_false] at h
  rcases h with rfl | rfl | rfl | rfl | rfl | rfl | rfl <;> decide

/-- A number stops at blanks, and at what follows them. -/
theorem Blanks.cuts {b : List Char} (hb : Blanks b) {rest : List Char} (h : Cuts rest) :
    Cuts (b ++ rest) := by
  cases b with
  | nil => exact h
  | cons c b =>
    have hc := hb c (by simp)
    simp only [isBlank, Bool.or_eq_true, decide_eq_true_eq] at hc
    exact cuts_cons (by simp; tauto) (b ++ rest)

/-! ## Values are read back -/

/-- Blanks in front of a value are passed over. -/
theorem value?_append {a : List Char} {c : Char} (n : Nat) (ha : Blanks a)
    (hc : isBlank c = false) (rest : List Char) :
    value? n (a ++ c :: rest) = value? n (c :: rest) := by
  have hskip : skipBlanks (c :: rest) = c :: rest := skipBlanks_append blanks_nil hc
  cases n with
  | zero => rw [value?, value?]
  | succ n => rw [value?, value?, skipBlanks_append ha hc, hskip]

theorem value?_quoted (n : Nat) (s : String) (rest : List Char) :
    value? (n + 1) (quoted s ++ rest) = some (.text s, rest) := by
  have hskip (cs : List Char) : skipBlanks ('"' :: cs) = '"' :: cs := rfl
  rw [quoted, List.cons_append, value?, hskip]
  simp [literal_quoted]

theorem value?_number {c : Char} (n : Nat) (hblank : isBlank c = false)
    (hc : c ∉ ['n', 't', 'f', '"', '[', '{']) (rest : List Char) :
    value? (n + 1) (c :: rest) = number? (c :: rest) := by
  have hskip : skipBlanks (c :: rest) = c :: rest := skipBlanks_append blanks_nil hblank
  simp only [List.mem_cons, List.not_mem_nil, or_false, not_or] at hc
  rw [value?, hskip]
  split <;> simp_all

/-- The first character of an integer is a minus or a digit. -/
theorem integer_eq_cons (i : Int) :
    ∃ c ds, integer i = c :: ds ∧ (c = '-' ∨ c.isDigit = true) := by
  rw [integer, Nat.toList_repr]
  split
  · exact ⟨_, _, rfl, .inl rfl⟩
  · cases h : Nat.toDigits 10 i.natAbs with
    | nil => exact absurd h Nat.toDigits_ne_nil
    | cons c ds =>
      exact ⟨c, ds, rfl, .inr (Nat.isDigit_of_mem_toDigits (b := 10) (n := i.natAbs)
        (by omega) (by omega) (by simp [h]))⟩

/-- An integer within range is read back, if nothing after it could be part of the number. -/
theorem value?_integer {i : Int} {rest : List Char} (n : Nat) (hcuts : Cuts rest)
    (hlow : -9223372036854775808 ≤ i) (hhigh : i < 18446744073709551616) :
    value? (n + 1) (integer i ++ rest) = some (.int i, rest) := by
  have hread := number?_integer hcuts hlow hhigh
  obtain ⟨c, ds, heq, hc⟩ := integer_eq_cons i
  have hblank : isBlank c = false := by
    rcases hc with rfl | hdigit
    · rfl
    · exact not_isBlank_of_isDigit hdigit
  have hother : c ∉ ['n', 't', 'f', '"', '[', '{'] := by
    rintro hmem
    simp only [List.mem_cons, List.not_mem_nil, or_false] at hmem
    rcases hmem with rfl | rfl | rfl | rfl | rfl | rfl <;> revert hc <;> decide
  rw [heq, List.cons_append] at hread ⊢
  rw [value?_number n hblank hother, hread]

/-- The first character of a value tells it from the end of a list. -/
theorem Spells.eq_cons {cs : List Char} {j : Json} (h : Spells cs j) :
    ∃ c ds, cs = c :: ds ∧ isBlank c = false ∧ c ≠ ']' := by
  cases h with
  | scalar hexact hlist hobject =>
    cases j with
    | null => exact ⟨_, _, rfl, by decide⟩
    | bool b => cases b <;> exact ⟨_, _, rfl, by decide⟩
    | int i =>
      obtain ⟨c, ds, heq, hc⟩ := integer_eq_cons i
      refine ⟨c, ds, heq, ?_⟩
      rcases hc with rfl | hdigit
      · decide
      · exact ⟨not_isBlank_of_isDigit hdigit, by rintro rfl; revert hdigit; decide⟩
    | text s => exact ⟨_, _, rfl, by decide⟩
    | decimal _ | torn => exact hexact.elim
    | list items => exact absurd rfl (hlist items)
    | object fields => exact absurd rfl (hobject fields)
  | emptyList ha => exact ⟨_, _, rfl, by decide⟩
  | list ha h hb => exact ⟨_, _, rfl, by decide⟩
  | emptyObject ha => exact ⟨_, _, rfl, by decide⟩
  | object ha h hb => exact ⟨_, _, rfl, by decide⟩

theorem SpellsAll.eq_cons {cs : List Char} {items : List Json} (h : SpellsAll cs items) :
    ∃ c ds, cs = c :: ds ∧ isBlank c = false ∧ c ≠ ']' := by
  cases h with
  | one h => exact h.eq_cons
  | more h hb ha hrest =>
    obtain ⟨c, ds, rfl, hc⟩ := h.eq_cons
    exact ⟨c, _, rfl, hc⟩

theorem SpellsFields.eq_cons {cs : List Char} {fields : List (String × Json)}
    (h : SpellsFields cs fields) : ∃ ds, cs = '"' :: ds := by
  cases h <;> exact ⟨_, rfl⟩

/-- A scalar is read back with one look. -/
theorem value?_scalar {j : Json} {rest : List Char} (n : Nat) (hcuts : Cuts rest)
    (hexact : j.Exact) (hlist : ∀ items, j ≠ .list items)
    (hobject : ∀ fields, j ≠ .object fields) :
    value? (n + 1) (scalar j ++ rest) = some (j, rest) := by
  cases j with
  | null => rfl
  | bool b => cases b <;> rfl
  | int i => exact value?_integer n hcuts hexact.1 hexact.2
  | text s => exact value?_quoted n s rest
  | decimal _ | torn => exact hexact.elim
  | list items => exact absurd rfl (hlist items)
  | object fields => exact absurd rfl (hobject fields)

theorem collect_map (fields : List (String × Json)) :
    collect (fields.map fun f => (some f.1, f.2)) = .object fields := by
  have h : (fields.map fun f => (some f.1, f.2)).mapM
      (fun f : Option String × Json => f.1.map fun k => (k, f.2)) = some fields := by
    induction fields with
    | nil => rfl
    | cons f fields ih => simp [ih]
  rw [collect, h]

theorem items?_append {a : List Char} {c : Char} (n : Nat) (ha : Blanks a)
    (hc : isBlank c = false) (rest : List Char) :
    items? n (a ++ c :: rest) = items? n (c :: rest) := by
  cases n with
  | zero => rw [items?, items?]
  | succ n => rw [items?, items?, value?_append n ha hc]

theorem members?_append {a : List Char} {c : Char} (n : Nat) (ha : Blanks a)
    (hc : isBlank c = false) (rest : List Char) :
    members? n (a ++ c :: rest) = members? n (c :: rest) := by
  have hskip : skipBlanks (c :: rest) = c :: rest := skipBlanks_append blanks_nil hc
  cases n with
  | zero => rw [members?, members?]
  | succ n => rw [members?, members?, skipBlanks_append ha hc, hskip]

theorem value?_bracket {a : List Char} {c : Char} (n : Nat) (ha : Blanks a)
    (hblank : isBlank c = false) (hc : c ≠ ']') (rest : List Char) :
    value? (n + 1) ('[' :: (a ++ c :: rest)) =
      (items? n (c :: rest)).map fun r => (.list r.1, r.2) := by
  have hskip (cs : List Char) : skipBlanks ('[' :: cs) = '[' :: cs := rfl
  rw [value?, hskip]
  simp only [skipBlanks_append ha hblank]
  split
  · simp_all
  · rfl

theorem value?_brace {a : List Char} (n : Nat) (ha : Blanks a) (rest : List Char) :
    value? (n + 1) ('{' :: (a ++ '"' :: rest)) =
      (members? n ('"' :: rest)).map fun r => (collect r.1, r.2) := by
  have hskip (cs : List Char) : skipBlanks ('{' :: cs) = '{' :: cs := rfl
  rw [value?, hskip]
  simp only [skipBlanks_append ha (show isBlank '"' = false by rfl)]
  rfl

theorem value?_closed {a : List Char} (n : Nat) (ha : Blanks a) (rest : List Char) :
    value? (n + 1) ('[' :: (a ++ ']' :: rest)) = some (.list [], rest) ∧
      value? (n + 1) ('{' :: (a ++ '}' :: rest)) = some (.object [], rest) := by
  have hbracket (cs : List Char) : skipBlanks ('[' :: cs) = '[' :: cs := rfl
  have hbrace (cs : List Char) : skipBlanks ('{' :: cs) = '{' :: cs := rfl
  rw [value?, value?, hbracket, hbrace]
  simp only [skipBlanks_append ha (show isBlank ']' = false by rfl),
    skipBlanks_append ha (show isBlank '}' = false by rfl), and_self]

theorem items?_last {n : Nat} {cs b rest : List Char} {j : Json} (hb : Blanks b)
    (hvalue : value? n cs = some (j, b ++ ']' :: rest)) :
    items? (n + 1) cs = some ([j], rest) := by
  rw [items?, hvalue]
  simp [skipBlanks_append hb (show isBlank ']' = false by rfl)]

theorem items?_comma {n : Nat} {cs b rest rest' : List Char} {j : Json} {items : List Json}
    (hb : Blanks b) (hvalue : value? n cs = some (j, b ++ ',' :: rest))
    (hitems : items? n rest = some (items, rest')) :
    items? (n + 1) cs = some (j :: items, rest') := by
  rw [items?, hvalue]
  simp [skipBlanks_append hb (show isBlank ',' = false by rfl), hitems]

section

variable {n : Nat} {k : String} {a b cs rest rest' : List Char} {j : Json}

theorem members?_last (ha : Blanks a) (hb : Blanks b)
    (hvalue : value? n cs = some (j, b ++ '}' :: rest)) :
    members? (n + 1) (quoted k ++ (a ++ ':' :: cs)) = some ([(some k, j)], rest) := by
  have hskip (cs : List Char) : skipBlanks ('"' :: cs) = '"' :: cs := rfl
  rw [quoted, List.cons_append, members?, hskip]
  simp [literal_quoted, skipBlanks_append ha (show isBlank ':' = false by rfl), hvalue,
    skipBlanks_append hb (show isBlank '}' = false by rfl)]

theorem members?_comma {fields : List (Option String × Json)} (ha : Blanks a) (hb : Blanks b)
    (hvalue : value? n cs = some (j, b ++ ',' :: rest))
    (hfields : members? n rest = some (fields, rest')) :
    members? (n + 1) (quoted k ++ (a ++ ':' :: cs)) = some ((some k, j) :: fields, rest') := by
  have hskip (cs : List Char) : skipBlanks ('"' :: cs) = '"' :: cs := rfl
  rw [quoted, List.cons_append, members?, hskip]
  simp [literal_quoted, skipBlanks_append ha (show isBlank ':' = false by rfl), hvalue,
    skipBlanks_append hb (show isBlank ',' = false by rfl), hfields]

end

mutual

/-- A text of a document is read as that document, in as many looks as it is long. -/
theorem Spells.value?_eq {cs : List Char} {j : Json} (h : Spells cs j) {a : List Char}
    (rest : List Char) {n : Nat} (ha : Blanks a) (hcuts : Cuts rest) (hn : cs.length ≤ n) :
    value? n (a ++ (cs ++ rest)) = some (j, rest) := by
  obtain ⟨c, ds, hcs, hblank, -⟩ := h.eq_cons
  have hskip : value? n (a ++ (cs ++ rest)) = value? n (cs ++ rest) := by
    rw [hcs]
    exact value?_append n ha hblank (ds ++ rest)
  rw [hskip]
  cases n with
  | zero => simp [hcs] at hn
  | succ n =>
  cases h with
  | scalar hexact hlist hobject => exact value?_scalar n hcuts hexact hlist hobject
  | emptyList ha => simpa using (value?_closed n ha rest).1
  | list ha h hb =>
    obtain ⟨c, ds, rfl, hblank, hc⟩ := h.eq_cons
    have hitems := h.items?_eq rest (n := n) hb (by simp at hn ⊢; omega)
    simp only [List.cons_append, List.append_assoc, List.nil_append] at hitems ⊢
    rw [value?_bracket n ha hblank hc, hitems]
    rfl
  | emptyObject ha => simpa using (value?_closed n ha rest).2
  | object ha h hb =>
    obtain ⟨ds, rfl⟩ := h.eq_cons
    have hfields := h.members?_eq rest (n := n) hb (by simp at hn ⊢; omega)
    simp only [List.cons_append, List.append_assoc, List.nil_append] at hfields ⊢
    rw [value?_brace n ha, hfields, Option.map_some, collect_map]

/-- A list is read to its bracket if there are more steps than characters. -/
theorem SpellsAll.items?_eq {cs : List Char} {items : List Json} (h : SpellsAll cs items)
    {b : List Char} (rest : List Char) {n : Nat} (hb : Blanks b) (hn : cs.length < n) :
    items? n (cs ++ (b ++ ']' :: rest)) = some (items, rest) := by
  cases n with
  | zero => omega
  | succ n =>
  cases h with
  | one h =>
    exact items?_last hb
      (h.value?_eq _ blanks_nil (hb.cuts (cuts_cons (by simp) rest)) (by omega))
  | @more a b' cs ds j items h hb' ha hrest =>
    have hvalue := h.value?_eq (a := []) (b' ++ ',' :: (a ++ (ds ++ (b ++ ']' :: rest))))
      (n := n) blanks_nil (hb'.cuts (cuts_cons (by simp) _)) (by simp at hn ⊢; omega)
    have hitems := hrest.items?_eq rest (n := n) hb (by simp at hn ⊢; omega)
    obtain ⟨c, es, rfl, hblank, -⟩ := hrest.eq_cons
    rw [List.cons_append, ← items?_append n ha hblank] at hitems
    simp only [List.append_assoc, List.cons_append, List.nil_append] at hvalue ⊢
    exact items?_comma hb' hvalue hitems

theorem SpellsFields.members?_eq {cs : List Char} {fields : List (String × Json)}
    (h : SpellsFields cs fields) {b : List Char} (rest : List Char) {n : Nat} (hb : Blanks b)
    (hn : cs.length < n) :
    members? n (cs ++ (b ++ '}' :: rest)) =
      some (fields.map fun f => (some f.1, f.2), rest) := by
  cases n with
  | zero => omega
  | succ n =>
  cases h with
  | one hb' ha h =>
    have hvalue := h.value?_eq (b ++ '}' :: rest) (n := n) ha
      (hb.cuts (cuts_cons (by simp) rest)) (by simp at hn ⊢; omega)
    simp only [List.append_assoc, List.cons_append]
    exact members?_last hb' hb hvalue
  | @more a b' c d cs ds k j fields hb' ha h hc hd hrest =>
    have hvalue := h.value?_eq (c ++ ',' :: (d ++ (ds ++ (b ++ '}' :: rest))))
      (n := n) ha (hc.cuts (cuts_cons (by simp) _)) (by simp at hn ⊢; omega)
    have hfields := hrest.members?_eq rest (n := n) hb (by simp at hn ⊢; omega)
    obtain ⟨es, rfl⟩ := hrest.eq_cons
    rw [List.cons_append, ← members?_append n hd (by rfl)] at hfields
    simp only [List.append_assoc, List.cons_append] at hvalue ⊢
    exact members?_comma hb' hc hvalue hfields

end

/-- A whole text, with blanks around it, is read as the document that it spells. -/
theorem Spells.parse?_eq {cs a b : List Char} {j : Json} (h : Spells cs j) (ha : Blanks a)
    (hb : Blanks b) : parse? (String.ofList (a ++ (cs ++ b))) = some j := by
  have hcuts : Cuts b := by simpa using hb.cuts cuts_nil
  have hrest : skipBlanks b = [] := List.dropWhile_eq_nil_iff.mpr hb
  have hvalue := h.value?_eq b (n := 2 * (a ++ (cs ++ b)).length + 1) ha hcuts (by simp; omega)
  rw [parse?, String.toList_ofList]
  simp only [hvalue, hrest, List.isEmpty_nil, if_true]

/-! ## Both writers spell the document -/

theorem blanks_space : Blanks [' '] := by simp [Blanks, isBlank]

theorem blanks_newLine (level : Nat) : Blanks (newLine level) := by
  intro c hc
  rcases List.mem_cons.mp hc with rfl | hc
  · rfl
  · rw [List.eq_of_mem_replicate hc]
    rfl

mutual

/-- The compact text is one of the document: one case for each constructor. -/
theorem spells_compact : ∀ j : Json, j.Exact → Spells j.compact j
  | .null, h | .bool _, h | .int _, h | .text _, h => .scalar h nofun nofun
  | .decimal _, h | .torn, h => h.elim
  | .list [], _ => .emptyList blanks_nil
  | .list (j :: rest), h =>
    .list blanks_nil (spellsAll_compact (j :: rest) (List.cons_ne_nil j rest) h) blanks_nil
  | .object [], _ => .emptyObject blanks_nil
  | .object (f :: rest), h =>
    .object blanks_nil (spellsFields_compact (f :: rest) (List.cons_ne_nil f rest) h) blanks_nil

theorem spellsAll_compact : ∀ items : List Json, items ≠ [] → ExactAll items →
    SpellsAll (compactAll items) items
  | [], hne, _ => absurd rfl hne
  | [j], _, h => .one (spells_compact j h.1)
  | j :: j' :: rest, _, h =>
    .more (spells_compact j h.1) blanks_nil blanks_nil
      (spellsAll_compact (j' :: rest) (List.cons_ne_nil j' rest) h.2)

theorem spellsFields_compact : ∀ fields : List (String × Json), fields ≠ [] →
    ExactFields fields → SpellsFields (compactFields fields) fields
  | [], hne, _ => absurd rfl hne
  | [(_, j)], _, h => .one blanks_nil blanks_nil (spells_compact j h.1)
  | (_, j) :: f :: rest, _, h =>
    .more blanks_nil blanks_nil (spells_compact j h.1) blanks_nil blanks_nil
      (spellsFields_compact (f :: rest) (List.cons_ne_nil f rest) h.2)

end

mutual

/-- The pretty text, too, is one of the document. -/
theorem spells_pretty (level : Nat) : ∀ j : Json, j.Exact → Spells (j.pretty level) j
  | .null, h | .bool _, h | .int _, h | .text _, h => .scalar h nofun nofun
  | .decimal _, h | .torn, h => h.elim
  | .list [], _ => .emptyList blanks_nil
  | .list (j :: rest), h => by
    obtain ⟨cs, heq, hcs⟩ := spellsAll_pretty (level + 1) (j :: rest) (List.cons_ne_nil j rest) h
    have hlist := Spells.list (blanks_newLine (level + 1)) hcs (blanks_newLine level)
    simpa only [pretty, heq, List.append_assoc] using hlist
  | .object [], _ => .emptyObject blanks_nil
  | .object (f :: rest), h => by
    obtain ⟨cs, heq, hcs⟩ := spellsFields_pretty (level + 1) (f :: rest)
      (List.cons_ne_nil f rest) h
    have hobject := Spells.object (blanks_newLine (level + 1)) hcs (blanks_newLine level)
    simpa only [pretty, heq, List.append_assoc] using hobject

theorem spellsAll_pretty (level : Nat) : ∀ items : List Json, items ≠ [] → ExactAll items →
    ∃ cs, prettyAll level items = newLine level ++ cs ∧ SpellsAll cs items
  | [], hne, _ => absurd rfl hne
  | [j], _, h => ⟨j.pretty level, rfl, .one (spells_pretty level j h.1)⟩
  | j :: j' :: rest, _, h => by
    obtain ⟨cs, heq, hcs⟩ := spellsAll_pretty level (j' :: rest) (List.cons_ne_nil j' rest) h.2
    have hall := SpellsAll.more (spells_pretty level j h.1) blanks_nil
      (blanks_newLine level) hcs
    exact ⟨_, by simp only [prettyAll, heq, List.append_assoc, List.nil_append], hall⟩

theorem spellsFields_pretty (level : Nat) : ∀ fields : List (String × Json), fields ≠ [] →
    ExactFields fields →
      ∃ cs, prettyFields level fields = newLine level ++ cs ∧ SpellsFields cs fields
  | [], hne, _ => absurd rfl hne
  | [(k, j)], _, h =>
    ⟨_, by simp [prettyFields], .one (k := k) blanks_nil blanks_space
      (spells_pretty level j h.1)⟩
  | (k, j) :: f :: rest, _, h => by
    obtain ⟨cs, heq, hcs⟩ := spellsFields_pretty level (f :: rest) (List.cons_ne_nil f rest) h.2
    have hall := SpellsFields.more (k := k) blanks_nil blanks_space
      (spells_pretty level j h.1) blanks_nil (blanks_newLine level) hcs
    exact ⟨_, by simp [prettyFields, heq], hall⟩

end

end Json

end CheckedPointers
