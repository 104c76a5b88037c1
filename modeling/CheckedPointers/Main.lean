import CheckedPointers.Command.Run

/-!
The program itself: it reads the files that are named, writes the assignment and reports errors.
-/
namespace CheckedPointers

namespace Command

def contentOf (path : String) : IO (Option ByteArray) := do
  try return some (← IO.FS.readBinFile path) catch _ => return none

def wording : Wording := ⟨"the file cannot be used", "the document cannot be read"⟩

def reportError (error : CommandError) : IO UInt32 := do
  IO.eprintln ("Error: " ++ ": ".intercalate (error.chain wording))
  return 1

def writeOutcome (a : Arguments) (outcome : Outcome) : IO UInt32 := do
  let text := render a outcome
  match a.output with
  | some path =>
    try IO.FS.writeFile path text catch _ => return ← reportError (.notWritten path)
  | none => (← IO.getStdout).putStr text
  match warning? outcome with
  | some line => IO.eprintln line
  | none => pure ()
  return 0

def runArguments (a : Arguments) : IO UInt32 := do
  let paths := a.config.toList ++ a.units
  let contents ← paths.mapM fun path => return (path, ← contentOf path)
  let files : Files := fun path => (contents.lookup path).join
  match prepare files a with
  | .error error => reportError error
  | .ok job =>
    match job.run with
    | .ok outcome => writeOutcome a outcome
    | .error (.fault f) =>
      IO.eprintln f.message
      return 101
    | .error (.unresolved e) =>
      IO.eprintln e.message
      return 101

def usage : String :=
  "usage: [-c CONFIG] [-o OUTPUT] [--no-merge-decls] [--allow-extern NAME]... " ++
    "[--max-repair-iterations N] [--pretty] UNIT..."

def execute (args : List String) : IO UInt32 := do
  match parse args with
  | .ok a => runArguments a
  | .error .displayHelp =>
    IO.println usage
    return 0
  | .error .displayVersion =>
    IO.println "0.1.0"
    return 0
  | .error _ =>
    IO.eprintln usage
    return 2

end Command

end CheckedPointers

def main (args : List String) : IO UInt32 := CheckedPointers.Command.execute args
