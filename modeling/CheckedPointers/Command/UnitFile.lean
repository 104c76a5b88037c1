import CheckedPointers.Format.OptionsFormat
import CheckedPointers.Format.UnitFormat
import CheckedPointers.Source.Closed

/-!
Loading units and options from files. Texts are UTF-8, and a unit has to be closed.
-/
namespace CheckedPointers

inductive UnitFileError where
  /-- The file is absent, unreadable or not UTF-8. -/
  | unreadable
  /-- The text does not spell a unit. -/
  | malformed
  | defective (file : String) (defect : Defect)

structure Wording where
  file : String
  document : String

namespace UnitFileError

def message (w : Wording) (path : String) : UnitFileError → String
  | unreadable => "cannot read '" ++ path ++ "': " ++ w.file
  | malformed => "malformed unit '" ++ path ++ "': " ++ w.document
  | defective file defect => defect.message file

/-- What an error is due to, if that is another error. -/
def cause? (w : Wording) : UnitFileError → Option String
  | unreadable => some w.file
  | malformed => some w.document
  | defective .. => none

end UnitFileError

/-- Files by path; an absent or unreadable one has no content. -/
abbrev Files := String → Option ByteArray

def Files.text? (files : Files) (path : String) : Option String := do
  String.fromUTF8? (← files path)

namespace TranslationUnit

def ofText (text : String) : Except UnitFileError TranslationUnit :=
  match (Json.parse? text).bind (ofJson? Json.nestingLimit) with
  | none => .error .malformed
  | some u =>
    match u.checkClosed with
    | .ok () => .ok u
    | .error defect => .error (.defective u.file defect)

def ofFile (files : Files) (path : String) : Except UnitFileError TranslationUnit :=
  match files.text? path with
  | some text => ofText text
  | none => .error .unreadable

end TranslationUnit

end CheckedPointers
