import Shakedown.Text.Position

/-!
# Failures

Why a run stopped. The cause fixes the code and the message; a failure adds the file it is about
and, for syntax errors, the place and what the reader of the script had to say.
-/

namespace Shakedown

/-- A report as it is shown: the code, the message and the place it is about. -/
structure Report where
  /-- Code of the kind of error. -/
  code : String
  /-- What went wrong. -/
  message : String
  /-- The file it is about; empty when it is about a text that has no file. -/
  file : String
  /-- The place in the file. -/
  place : Place
  /-- Remarks, one on each further line. -/
  diagnostics : List String
  deriving DecidableEq, Repr, Inhabited

namespace Report

/-- One sentence about a kind of error. -/
def describe : (code : String) → String
  | "BO-PARSE" => "The input could not be parsed as JavaScript."
  | "BO-EMIT" => "The transformed output failed validation."
  | "BO-IO" => "A file could not be read or written."
  | "BO-MAP" => "A source map could not be decoded."
  | "BO-INPUT" => "The input was rejected before processing."
  | _ => "Unknown error."

/-- The sentence about the kind of error reported. -/
def summary (report : Report) : String :=
  describe report.code

/-- The report on one line, and each remark on a further line. -/
def display (report : Report) : String :=
  let file := if report.file.isEmpty then "<content>" else report.file
  let head := "[" ++ report.code ++ "] " ++ report.message ++ " (" ++ file ++ ":" ++
    report.place.line.repr ++ ":" ++ report.place.column.repr ++ ")"
  report.diagnostics.foldl (fun text remark => text ++ "\n  " ++ remark) head

end Report

/-- Why a run stopped. -/
inductive Cause
  /-- A script has a syntax error. -/
  | unreadableScript
  /-- An edited script has a syntax error. -/
  | brokenOutput
  /-- A file or directory is missing. -/
  | missingFile
  /-- A directory stands where a file is meant. -/
  | directory
  /-- A file is not UTF-8 text. -/
  | notText
  /-- The mappings that begin with `preview` are malformed. -/
  | malformedMappings (preview : String)
  /-- A document is no source map. -/
  | malformedMap
  /-- A path does not name a script. -/
  | notScript
  deriving DecidableEq, Repr, Inhabited

namespace Cause

/-- The code that a cause is reported under. -/
def code : Cause → String
  | unreadableScript => "BO-PARSE"
  | brokenOutput => "BO-EMIT"
  | missingFile => "BO-IO"
  | directory => "BO-IO"
  | notText => "BO-IO"
  | malformedMappings _ => "BO-MAP"
  | malformedMap => "BO-MAP"
  | notScript => "BO-INPUT"

/-- The message of a cause. -/
def message : Cause → String
  | unreadableScript => "Failed to parse input"
  | brokenOutput => "Transformed output is not valid JavaScript"
  | missingFile => "No such file or directory (os error 2)"
  | directory => "Is a directory (os error 21)"
  | notText => "stream did not contain valid UTF-8"
  | malformedMappings preview => "Malformed mappings near '" ++ preview ++ "'"
  | malformedMap => "Malformed source map document"
  | notScript => "Input file must be .js or .ts."

end Cause

/-- A run that stopped. -/
structure Failure where
  /-- Why it stopped. -/
  cause : Cause
  /-- The file it is about; empty when it is about a text that has no file. -/
  file : String
  /-- The place in the file. -/
  place : Place := Place.unknown
  /-- What the reader of the script had to say. -/
  diagnostics : List String := []
  deriving DecidableEq, Repr, Inhabited

/-- A failure as it is shown. -/
def Failure.report (failure : Failure) : Report :=
  { code := failure.cause.code
    message := failure.cause.message
    file := failure.file
    place := failure.place
    diagnostics := failure.diagnostics }

end Shakedown
