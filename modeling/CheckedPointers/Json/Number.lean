import CheckedPointers.Json.Basic

/-!
Reading the numbers of JSON text. A number that is no 64-bit integer is read as a binary fraction
of limited range: of its digits, the leading ones that fit in 64 bits count, and they and the
power of ten are rounded before they are multiplied.
-/
namespace CheckedPointers

namespace Json

def digitValue (c : Char) : Nat := c.toNat - 48

def digitsValue (ds : List Char) : Nat := ds.foldl (fun n c => 10 * n + digitValue c) 0

/-- Appends to `m` the leading digits whose value stays within 64 bits; the others are left. -/
def leading (m : Nat) : List Char → Nat × List Char
  | [] => (m, [])
  | c :: cs =>
    let n := 10 * m + digitValue c
    if n < 18446744073709551616 then leading n cs else (m, c :: cs)

/-- The nearest number of at most 53 significant bits; a half goes to the even neighbour. -/
def rounded (n : Nat) : Nat :=
  let unit := Nat.pow 2 (n.log2 + 1 - 53)
  let q := n / unit
  let twice := 2 * (n % unit)
  if unit < twice ∨ twice = unit ∧ q % 2 = 1 then (q + 1) * unit else q * unit

/-- The least number that rounds to infinity. -/
def overflow : Nat := Nat.pow 2 1024 - Nat.pow 2 970

def isFinite (m : Nat) (e : Int) : Bool :=
  if m = 0 ∨ e < 0 then true
  else if 308 < e then false
  else rounded m * rounded (Nat.pow 10 e.toNat) < overflow

def fraction? : List Char → Option (List Char × List Char)
  | '.' :: cs =>
    let ds := cs.takeWhile Char.isDigit
    if ds.isEmpty then none else some (ds, cs.dropWhile Char.isDigit)
  | cs => some ([], cs)

def exponent? (cs : List Char) : Option (Option Int × List Char) :=
  let value (sign : Int) (cs : List Char) : Option (Option Int × List Char) :=
    let ds := cs.takeWhile Char.isDigit
    if ds.isEmpty then none
    else some (some (sign * digitsValue ds), cs.dropWhile Char.isDigit)
  match cs with
  | c :: rest =>
    if c = 'e' || c = 'E' then
      match rest with
      | '+' :: rest => value 1 rest
      | '-' :: rest => value (-1) rest
      | rest => value 1 rest
    else some (none, cs)
  | [] => some (none, [])

def ofDigits (negative : Bool) (whole frac : List Char) (exp : Option Int) : Json :=
  let (m, left) := leading 0 whole
  if frac.isEmpty && exp.isNone && left.isEmpty &&
      !(negative && (m = 0 || 9223372036854775808 < m)) then
    .int (if negative then -(m : Int) else m)
  else
    let (m, unread) := leading m frac
    .decimal (isFinite m (exp.getD 0 + left.length - (frac.length - unread.length : Nat)))

/-- A number without its sign. No digit follows a leading zero. -/
def unsigned? (negative : Bool) (cs : List Char) : Option (Json × List Char) := do
  let whole := cs.takeWhile Char.isDigit
  if whole.isEmpty || (1 < whole.length && whole.head? = some '0') then none
  let (frac, rest) ← fraction? (cs.dropWhile Char.isDigit)
  let (exp, rest) ← exponent? rest
  return (ofDigits negative whole frac exp, rest)

def number? : List Char → Option (Json × List Char)
  | '-' :: cs => unsigned? true cs
  | cs => unsigned? false cs

end Json

end CheckedPointers
