import CheckedPointers.Json.Reader
import CheckedPointers.Json.Writer
import Mathlib.Data.List.Basic
import Mathlib.Data.List.TakeWhile
import Mathlib.Tactic.IntervalCases

/-!
Literals are read back. What the writer puts for a string, or for an integer in the range of the
reader, spells that string or that integer, whatever text follows.
-/
namespace CheckedPointers

namespace Json

/-! ## Strings -/

theorem hexValue?_hexDigit : ∀ n < 16, hexValue? (hexDigit n) = some n := by
  decide

theorem pieces_letter {l c : Char} (h : escaped? l = some c) (hl : l ≠ 'u') (rest : List Char) :
    pieces ('\\' :: l :: rest) = (pieces rest).map fun r => (.char c :: r.1, r.2) := by
  cases hr : pieces rest <;> simp [pieces, hl, h, hr]

theorem pieces_code {n : Nat} (h : n < 32) (rest : List Char) :
    pieces ('\\' :: 'u' :: '0' :: '0' :: hexDigit (n / 16) :: hexDigit (n % 16) :: rest) =
      (pieces rest).map fun r => (.unit n :: r.1, r.2) := by
  have hunit : codeUnit? '0' '0' (hexDigit (n / 16)) (hexDigit (n % 16)) = some n := by
    have hzero : hexValue? '0' = some 0 := rfl
    simp only [codeUnit?, hzero, hexValue?_hexDigit (n / 16) (by omega),
      hexValue?_hexDigit (n % 16) (by omega)]
    simp
    omega
  cases hr : pieces rest <;> simp [pieces, hunit, hr]

theorem pieces_plain {c : Char} (hquote : c ≠ '"') (hslash : c ≠ '\\') (h : ¬c.toNat < 32)
    (rest : List Char) :
    pieces (c :: rest) = (pieces rest).map fun r => (.char c :: r.1, r.2) := by
  cases hr : pieces rest <;> simp [pieces, hslash, h, hr]

/-- What `escape` puts for a character: its code when it is a control character without a
letter of its own. -/
def pieceOf (c : Char) : Piece :=
  if c.toNat < 32 ∧ c.toNat ∉ [8, 9, 10, 12, 13] then .unit c.toNat else .char c

/-- An escaped character is read as one piece, and what follows it is left to be read. -/
theorem pieces_escape (c : Char) (rest : List Char) :
    pieces (escape c ++ rest) = (pieces rest).map fun r => (pieceOf c :: r.1, r.2) := by
  have code (n : Nat) (hc : c.toNat = n) : c = Char.ofNat n := by rw [← hc, Char.ofNat_toNat]
  unfold escape
  split_ifs with hquote hslash h8 h9 h10 h12 h13 hcontrol
  · subst hquote; exact pieces_letter rfl (by decide) rest
  · subst hslash; exact pieces_letter rfl (by decide) rest
  · rw [code 8 h8]; exact pieces_letter rfl (by decide) rest
  · rw [code 9 h9]; exact pieces_letter rfl (by decide) rest
  · rw [code 10 h10]; exact pieces_letter rfl (by decide) rest
  · rw [code 12 h12]; exact pieces_letter rfl (by decide) rest
  · rw [code 13 h13]; exact pieces_letter rfl (by decide) rest
  · rw [pieceOf, if_pos ⟨hcontrol, by simp [h8, h9, h10, h12, h13]⟩]
    exact pieces_code hcontrol rest
  · rw [pieceOf, if_neg (fun h => hcontrol h.1)]
    exact pieces_plain hquote hslash hcontrol rest

theorem pieces_quoted (cs rest : List Char) :
    pieces (cs.flatMap escape ++ '"' :: rest) = some (cs.map pieceOf, rest) := by
  induction cs with
  | nil => simp [pieces]
  | cons c cs ih =>
    rw [List.flatMap_cons, List.append_assoc, pieces_escape, ih]
    rfl

theorem spelled?_unit {n : Nat} (h : n < 32) (ps : List Piece) :
    spelled? (.unit n :: ps) = (spelled? ps).map (Char.ofNat n :: ·) := by
  have hhigh : isHigh n = false := by simp [isHigh]; omega
  have hlow : isLow n = false := by simp [isLow]; omega
  cases ps with
  | nil => simp [spelled?, hhigh, hlow]
  | cons p ps => cases p <;> simp [spelled?, hhigh, hlow]

/-- The pieces of escaped characters spell these characters. -/
theorem spelled?_map_pieceOf (cs : List Char) : spelled? (cs.map pieceOf) = some cs := by
  induction cs with
  | nil => rfl
  | cons c cs ih =>
    rw [List.map_cons, pieceOf]
    split
    · rename_i h
      rw [spelled?_unit h.1, ih, Char.ofNat_toNat]
      rfl
    · rw [spelled?, ih]
      rfl

/-- A string literal stands for the string that it was written for. -/
theorem literal_quoted (s : String) (rest : List Char) :
    literal (s.toList.flatMap escape ++ '"' :: rest) = some (some s, rest) := by
  simp [literal, pieces_quoted, spelled?_map_pieceOf]

/-! ## Numbers -/

/-- No character at the start of the text would prolong a number before it. -/
def Cuts (rest : List Char) : Prop :=
  ∀ c ∈ rest.head?, c.isDigit = false ∧ c ∉ ['.', 'e', 'E']

theorem Cuts.takeWhile {rest : List Char} (h : Cuts rest) : rest.takeWhile Char.isDigit = [] := by
  cases rest with
  | nil => rfl
  | cons c rest => simp [(h c rfl).1]

theorem Cuts.dropWhile {rest : List Char} (h : Cuts rest) :
    rest.dropWhile Char.isDigit = rest := by
  cases rest with
  | nil => rfl
  | cons c rest => simp [(h c rfl).1]

theorem Cuts.fraction? {rest : List Char} (h : Cuts rest) : fraction? rest = some ([], rest) := by
  cases rest with
  | nil => rfl
  | cons c rest =>
    have hc : c ≠ '.' := fun e => (h c rfl).2 (by simp [e])
    simp [Json.fraction?, hc]

/-- Without an exponent mark the number ends. -/
theorem Cuts.exponent? {rest : List Char} (h : Cuts rest) :
    exponent? rest = some (none, rest) := by
  cases rest with
  | nil => rfl
  | cons c rest =>
    have hc := (h c rfl).2
    simp only [List.mem_cons, List.not_mem_nil, or_false, not_or] at hc
    simp [Json.exponent?, hc]

theorem le_digits (m : Nat) (ds : List Char) :
    m ≤ ds.foldl (fun n c => 10 * n + digitValue c) m := by
  induction ds generalizing m with
  | nil => exact Nat.le_refl m
  | cons c ds ih => exact Nat.le_trans (by omega) (ih (10 * m + digitValue c))

/-- All digits count when their value stays within 64 bits. -/
theorem leading_eq {m : Nat} {ds : List Char}
    (h : ds.foldl (fun n c => 10 * n + digitValue c) m < 18446744073709551616) :
    leading m ds = (ds.foldl (fun n c => 10 * n + digitValue c) m, []) := by
  induction ds generalizing m with
  | nil => rfl
  | cons c ds ih =>
    have hm := Nat.lt_of_le_of_lt (le_digits _ ds) h
    rw [leading, if_pos hm]
    exact ih h

/-- A run of digits is read up to what cuts it. -/
theorem unsigned?_digits {ds rest : List Char} (negative : Bool)
    (hdigits : ∀ c ∈ ds, c.isDigit = true) (hne : ds ≠ [])
    (hzero : 1 < ds.length → ds.head? ≠ some '0') (hcuts : Cuts rest) :
    unsigned? negative (ds ++ rest) = some (ofDigits negative ds [] none, rest) := by
  have htake : (ds ++ rest).takeWhile Char.isDigit = ds := by
    rw [List.takeWhile_append_of_pos hdigits, hcuts.takeWhile, List.append_nil]
  have hdrop : (ds ++ rest).dropWhile Char.isDigit = rest := by
    rw [List.dropWhile_append_of_pos hdigits, hcuts.dropWhile]
  have hwhole : ¬(ds.isEmpty || (1 < ds.length && ds.head? = some '0')) = true := by
    simpa [hne] using hzero
  rw [unsigned?, htake, hdrop, if_neg hwhole, hcuts.fraction?]
  simp [hcuts.exponent?]

/-- Digits stand for their value, if that is in the reader's range. -/
theorem ofDigits_eq {negative : Bool} {ds : List Char}
    (h : digitsValue ds < 18446744073709551616)
    (hminus : negative = true → 0 < digitsValue ds ∧ digitsValue ds ≤ 9223372036854775808) :
    ofDigits negative ds [] none =
      .int (if negative then -(digitsValue ds : Int) else digitsValue ds) := by
  have hvalue : leading 0 ds = (digitsValue ds, []) := leading_eq h
  cases negative with
  | false => simp [ofDigits, hvalue]
  | true =>
    have hrange := hminus rfl
    have hzero : digitsValue ds ≠ 0 := by omega
    have hbig : ¬9223372036854775808 < digitsValue ds := by omega
    simp [ofDigits, hvalue, hzero, hbig]

theorem digitsValue_toDigits (n : Nat) : digitsValue (Nat.toDigits 10 n) = n := by
  have h := Nat.ofDigitChars_ten_toDigits (n := n)
  rw [Nat.ofDigitChars_eq_foldl] at h
  exact h

/-- Only zero is written with a leading zero. -/
theorem head?_toDigits_ne_zero {n : Nat} (h : 0 < n) : (Nat.toDigits 10 n).head? ≠ some '0' := by
  induction n using Nat.strong_induction_on with
  | _ n ih =>
    rw [Nat.toDigits_eq_if (by omega)]
    split
    · interval_cases n <;> decide
    · have hhead := ih (n / 10) (by omega) (by omega)
      rw [List.head?_append_of_ne_nil _ Nat.toDigits_ne_nil]
      exact hhead

/-- A number of 64 bits is read back, with or without a minus in front; zero stands without. -/
theorem unsigned?_toDigits (negative : Bool) {n : Nat} {rest : List Char} (hcuts : Cuts rest)
    (hn : n < 18446744073709551616)
    (hminus : negative = true → 0 < n ∧ n ≤ 9223372036854775808) :
    unsigned? negative (Nat.toDigits 10 n ++ rest) =
      some (.int (if negative then -(n : Int) else n), rest) := by
  have hzero : 1 < (Nat.toDigits 10 n).length → (Nat.toDigits 10 n).head? ≠ some '0' := by
    intro hlength
    rcases Nat.eq_zero_or_pos n with rfl | hpos
    · simp at hlength
    · exact head?_toDigits_ne_zero hpos
  have hvalue := digitsValue_toDigits n
  rw [unsigned?_digits negative (fun c => Nat.isDigit_of_mem_toDigits (by omega) (by omega))
    Nat.toDigits_ne_nil hzero hcuts, ofDigits_eq (by rwa [hvalue]) (by rwa [hvalue]), hvalue]

/-- An integer of the reader's range is read back. -/
theorem number?_integer {i : Int} {rest : List Char} (hcuts : Cuts rest)
    (hlow : -9223372036854775808 ≤ i) (hhigh : i < 18446744073709551616) :
    number? (integer i ++ rest) = some (.int i, rest) := by
  rw [integer, Nat.toList_repr]
  split
  · have h := unsigned?_toDigits true (n := i.natAbs) hcuts (by omega) (by omega)
    rw [List.cons_append, number?, h, if_pos rfl, show -(i.natAbs : Int) = i by omega]
  · have h := unsigned?_toDigits false (n := i.natAbs) hcuts (by omega) (by simp)
    cases hds : Nat.toDigits 10 i.natAbs with
    | nil => exact absurd hds Nat.toDigits_ne_nil
    | cons c ds =>
      have hc : c ≠ '-' := by
        rintro rfl
        have hdigit : '-'.isDigit = true :=
          Nat.isDigit_of_mem_toDigits (b := 10) (n := i.natAbs) (by omega) (by omega)
            (by simp [hds])
        exact absurd hdigit (by decide)
      rw [if_neg (by decide), show (i.natAbs : Int) = i by omega, hds, List.cons_append] at h
      rw [List.cons_append, number?, h]
      exact fun _ e => hc (List.cons.inj e).1

end Json

end CheckedPointers
