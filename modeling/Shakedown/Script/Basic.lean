import Shakedown.Failure
import Shakedown.Scope.Resolve
import Shakedown.Script.Parse

/-!
# Scripts

A script is a text together with its program and the meanings of its names. All passes look at the
same script and change nothing in it.
-/

namespace Shakedown

/-- A text with its program and the meanings of its names. -/
structure Script where
  /-- The text. -/
  text : String
  /-- The program that the text is. -/
  program : Program
  /-- The meanings of the names in it. -/
  scoping : Scoping
  deriving Repr, Inhabited

namespace Script

/-- The remark about a fault, with its place. -/
def diagnostic (text : String) (fault : SyntaxFault) : String :=
  let place := Place.ofOffset text fault.offset
  place.line.repr ++ ":" ++ place.column.repr ++ " " ++ SyntaxFault.remark

/-- Reads a text, or says where it breaks the grammar. -/
def read (text file : String) : Except Failure Script :=
  match Program.read text with
  | .ok program => .ok { text, program, scoping := Scoping.ofProgram program }
  | .error fault => .error
      { cause := .unreadableScript
        file
        place := Place.ofOffset text fault.offset
        diagnostics := [diagnostic text fault] }

/-- Checks that an edited text is still a script. -/
def check (text file : String) : Except Failure Unit :=
  match Program.read text with
  | .ok _ => .ok ()
  | .error fault => .error
      { cause := .brokenOutput, file, diagnostics := [diagnostic text fault] }

/-- The part of the text that a range names. -/
def slice (script : Script) (span : Span) : String :=
  Text.slice script.text span

end Script
end Shakedown
