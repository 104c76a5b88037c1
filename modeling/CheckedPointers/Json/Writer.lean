import CheckedPointers.Json.Basic

/-!
Writing JSON: one line without blanks, or one member a line, two blanks a level.
-/
namespace CheckedPointers

namespace Json

def hexDigit (n : Nat) : Char := if n < 10 then Char.ofNat (48 + n) else Char.ofNat (87 + n)

/-- Quotes, backslashes and control characters are escaped, by a letter where there is one. -/
def escape (c : Char) : List Char :=
  if c = '"' then ['\\', '"']
  else if c = '\\' then ['\\', '\\']
  else if c.toNat = 8 then ['\\', 'b']
  else if c.toNat = 9 then ['\\', 't']
  else if c.toNat = 10 then ['\\', 'n']
  else if c.toNat = 12 then ['\\', 'f']
  else if c.toNat = 13 then ['\\', 'r']
  else if c.toNat < 32 then ['\\', 'u', '0', '0', hexDigit (c.toNat / 16), hexDigit (c.toNat % 16)]
  else [c]

def quoted (s : String) : List Char := '"' :: (s.toList.flatMap escape ++ ['"'])

def integer (i : Int) : List Char :=
  if i < 0 then '-' :: i.natAbs.repr.toList else i.natAbs.repr.toList

/-- A number whose value was not kept, and a literal that has none, are written as `null`. -/
def scalar : Json → List Char
  | bool true => "true".toList
  | bool false => "false".toList
  | int i => integer i
  | text s => quoted s
  | _ => "null".toList

mutual

def compact : Json → List Char
  | list items => '[' :: (compactAll items ++ [']'])
  | object fields => '{' :: (compactFields fields ++ ['}'])
  | j => scalar j

def compactAll : List Json → List Char
  | [] => []
  | [j] => j.compact
  | j :: rest => j.compact ++ ',' :: compactAll rest

def compactFields : List (String × Json) → List Char
  | [] => []
  | [(k, j)] => quoted k ++ ':' :: j.compact
  | (k, j) :: rest => quoted k ++ ':' :: (j.compact ++ ',' :: compactFields rest)

end

def newLine (level : Nat) : List Char := '\n' :: List.replicate (2 * level) ' '

mutual

/-- The document with one item or member a line; `level` is that of the line it starts on. -/
def pretty (level : Nat) : Json → List Char
  | list [] => "[]".toList
  | list items => '[' :: (prettyAll (level + 1) items ++ newLine level ++ [']'])
  | object [] => "{}".toList
  | object fields => '{' :: (prettyFields (level + 1) fields ++ newLine level ++ ['}'])
  | j => scalar j

def prettyAll (level : Nat) : List Json → List Char
  | [] => []
  | [j] => newLine level ++ j.pretty level
  | j :: rest => newLine level ++ j.pretty level ++ ',' :: prettyAll level rest

def prettyFields (level : Nat) : List (String × Json) → List Char
  | [] => []
  | [(k, j)] => newLine level ++ quoted k ++ ':' :: ' ' :: j.pretty level
  | (k, j) :: rest =>
    newLine level ++ quoted k ++ ':' :: ' ' :: (j.pretty level ++ ',' :: prettyFields level rest)

end

end Json

end CheckedPointers
