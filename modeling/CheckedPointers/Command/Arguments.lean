/-!
The command line: its options in any order among the units, and everything after `--` a unit.
-/
namespace CheckedPointers

namespace Command

structure Arguments where
  units : List String
  config : Option String
  noMergeDecls : Bool
  allowExtern : List String
  maxRepairIterations : Option Nat
  output : Option String
  pretty : Bool
  deriving DecidableEq

inductive UsageError where
  | missingRequiredArgument
  | unknownArgument
  /-- An option without its value, or an empty path. -/
  | invalidValue
  /-- A value that is not a number in range. -/
  | valueValidation
  /-- An option that may not be repeated was. -/
  | argumentConflict
  /-- A flag was given a value. -/
  | tooManyValues
  | displayHelp
  | displayVersion
  deriving DecidableEq

inductive Slot where
  | unit
  | config
  | allowExtern
  | maxRepairIterations
  | output
  deriving DecidableEq

inductive Flag where
  | noMergeDecls
  | pretty
  | help
  | version
  deriving DecidableEq

inductive Name where
  | slot (s : Slot)
  | flag (f : Flag)

def Name.ofLong? : String → Option Name
  | "config" => some (.slot .config)
  | "allow-extern" => some (.slot .allowExtern)
  | "max-repair-iterations" => some (.slot .maxRepairIterations)
  | "output" => some (.slot .output)
  | "no-merge-decls" => some (.flag .noMergeDecls)
  | "pretty" => some (.flag .pretty)
  | "help" => some (.flag .help)
  | "version" => some (.flag .version)
  | _ => none

def Name.ofShort? : Char → Option Name
  | 'c' => some (.slot .config)
  | 'o' => some (.slot .output)
  | 'h' => some (.flag .help)
  | 'V' => some (.flag .version)
  | _ => none

/-- The arguments read so far, and the values waiting to be read: those of units in a row, or that
of an option, which may still be to come. They are read once the next option, flag or unit is
recognised, so an argument that is refused as it stands goes first. -/
structure Progress where
  arguments : Arguments
  pending : Option (Slot × List String)

/-- A decimal number with an optional sign, within 32 bits. -/
def number? (text : String) : Option Nat :=
  let (negative, digits) :=
    match text.toList with
    | '+' :: ds => (false, ds)
    | '-' :: ds => (true, ds)
    | ds => (false, ds)
  if digits.isEmpty || !digits.all Char.isDigit then none
  else
    let n := digits.foldl (fun n c => 10 * n + (c.toNat - 48)) 0
    if n < 4294967296 && (!negative || n = 0) then some n else none

def path (text : String) : Except UsageError String :=
  if text = "" then .error .invalidValue else .ok text

def once (old : Option α) (read : String → Except UsageError α) (values : List String) :
    Except UsageError (Option α) :=
  match values, old with
  | [], _ => .error .invalidValue
  | _, some _ => .error .argumentConflict
  | value :: _, none => (read value).map some

namespace Arguments

def fill (a : Arguments) (values : List String) : Slot → Except UsageError Arguments
  | .unit => return { a with units := a.units ++ (← values.mapM path) }
  | .config => return { a with config := ← once a.config path values }
  | .output => return { a with output := ← once a.output path values }
  | .maxRepairIterations => do
    let read (text : String) : Except UsageError Nat :=
      match number? text with
      | some n => .ok n
      | none => .error .valueValidation
    return { a with maxRepairIterations := ← once a.maxRepairIterations read values }
  | .allowExtern =>
    if values.isEmpty then .error .invalidValue
    else return { a with allowExtern := a.allowExtern ++ values }

def raise (a : Arguments) : Flag → Except UsageError Arguments
  | .noMergeDecls =>
    if a.noMergeDecls then .error .argumentConflict else .ok { a with noMergeDecls := true }
  | .pretty => if a.pretty then .error .argumentConflict else .ok { a with pretty := true }
  | .help => .error .displayHelp
  | .version => .error .displayVersion

end Arguments

namespace Progress

def settle (p : Progress) : Except UsageError Progress :=
  match p.pending with
  | some (slot, values) => return ⟨← p.arguments.fill values slot, none⟩
  | none => .ok p

def unit (p : Progress) (text : String) : Except UsageError Progress :=
  match p.pending with
  | some (.unit, values) => .ok { p with pending := some (.unit, values ++ [text]) }
  | _ => return { ← p.settle with pending := some (.unit, [text]) }

/-- An argument that names nothing: a unit, or the value that an option waits for. -/
def value (p : Progress) (text : String) : Except UsageError Progress :=
  match p.pending with
  | some (.unit, _) | none | some (_, _ :: _) => p.unit text
  | some (slot, []) => .ok { p with pending := some (slot, [text]) }

def option (p : Progress) (slot : Slot) (attached : Option String) :
    Except UsageError Progress := do
  let p ← p.settle
  match attached with
  | some text => Progress.settle { p with pending := some (slot, [text]) }
  | none => return { p with pending := some (slot, []) }

def flag (p : Progress) (f : Flag) : Except UsageError Progress := do
  let p ← p.settle
  return { p with arguments := ← p.arguments.raise f }

/-- An argument after two dashes, split at the first equals sign. -/
def long (p : Progress) (cs : List Char) : Except UsageError Progress :=
  let name := String.ofList (cs.takeWhile (· ≠ '='))
  let attached :=
    match cs.dropWhile (· ≠ '=') with
    | _ :: value => some (String.ofList value)
    | [] => none
  match Name.ofLong? name, attached with
  | some (.slot slot), attached => p.option slot attached
  | some (.flag f), none => p.flag f
  | some (.flag _), some _ => .error .tooManyValues
  | none, _ => .error .unknownArgument

/-- An argument after one dash: flags, and at most one option, which takes the rest. -/
def short (p : Progress) : List Char → Except UsageError Progress
  | [] => .ok p
  | c :: rest =>
    match Name.ofShort? c with
    | some (.flag f) => do (← p.flag f).short rest
    | some (.slot slot) =>
      match rest with
      | [] => p.option slot none
      | '=' :: value => p.option slot (some (String.ofList value))
      | value => p.option slot (some (String.ofList value))
    | none => .error .unknownArgument

end Progress

def read (p : Progress) : List String → Except UsageError Progress
  | [] => p.settle
  | arg :: rest =>
    match arg.toList with
    | ['-', '-'] => do
      let p ← rest.foldlM Progress.unit p
      p.settle
    | '-' :: '-' :: cs => do read (← p.long cs) rest
    | '-' :: c :: cs => do read (← p.short (c :: cs)) rest
    | _ => do read (← p.value arg) rest

def parse (args : List String) : Except UsageError Arguments := do
  let p ← read ⟨⟨[], none, false, [], none, none, false⟩, none⟩ args
  if p.arguments.units.isEmpty then throw .missingRequiredArgument
  return p.arguments

end Command

end CheckedPointers
