import CheckedPointers.Analysis
import CheckedPointers.Command.Arguments
import CheckedPointers.Command.UnitFile
import CheckedPointers.Format.AssignmentFormat
import CheckedPointers.Json.Writer

/-!
A run of the program: options from the configuration and the command line, units in the order
named, and the text that is to be written.
-/
namespace CheckedPointers

namespace Command

inductive CommandError where
  | configUnreadable (path : String)
  | configMalformed (path : String)
  | unitNotLoaded (path : String) (error : UnitFileError)
  | notWritten (path : String)

def malformedOptions (w : Wording) : List String := ["invalid inference options", w.document]

namespace CommandError

/-- An error and what it is due to, outermost first. -/
def chain (w : Wording) : CommandError → List String
  | configUnreadable path => ["failed to read config: " ++ path, w.file]
  | configMalformed path => ("failed to parse config: " ++ path) :: malformedOptions w
  | unitNotLoaded path error =>
    ["failed to load " ++ path, error.message w path] ++ (error.cause? w).toList
  | notWritten path => ["failed to write " ++ path, w.file]

end CommandError

def readOptions (files : Files) (path : String) : Except CommandError Options :=
  match files.text? path with
  | none => .error (.configUnreadable path)
  | some text =>
    match Options.parse? text with
    | some options => .ok options
    | none => .error (.configMalformed path)

def allow (o : Options) (name : String) : Options :=
  if o.allows name then o
  else { o with externAllowList := o.externAllowList ++ [name] }

/-- The options of a run. What the command line says comes last. -/
def optionsFor (files : Files) (a : Arguments) : Except CommandError Options := do
  let o ← match a.config with
    | some path => readOptions files path
    | none => pure Options.default
  let o := if a.noMergeDecls then { o with mergeDeclarations := false } else o
  let o := a.allowExtern.foldl allow o
  return { o with maxRepairRounds := a.maxRepairIterations.getD o.maxRepairRounds }

/-- Loads units and numbers them from `id` on. -/
def unitsFrom (files : Files) : Nat → List String → Except CommandError (List TranslationUnit)
  | _, [] => .ok []
  | id, path :: rest =>
    match TranslationUnit.ofFile files path with
    | .ok u => do return { u with id } :: (← unitsFrom files (id + 1) rest)
    | .error error => .error (.unitNotLoaded path error)

def unitsFor (files : Files) (paths : List String) :
    Except CommandError (List TranslationUnit) :=
  unitsFrom files 0 paths

structure Job where
  options : Options
  units : List TranslationUnit

def prepare (files : Files) (a : Arguments) : Except CommandError Job := do
  let options ← optionsFor files a
  return ⟨options, ← unitsFor files a.units⟩

def Job.run (job : Job) : Except Failure Outcome :=
  (Session.analyse job.units (Session.new job.options)).1

def render (a : Arguments) (outcome : Outcome) : String :=
  let j := outcome.assignment.toJson
  String.ofList ((if a.pretty then j.pretty 0 else j.compact) ++ ['\n'])

def warning? (outcome : Outcome) : Option String :=
  if outcome.settled.converged then none
  else some ("warning: repair did not settle within " ++ outcome.settled.rounds.repr ++
    " rounds; categories may be too safe")

end Command

end CheckedPointers
