import Shakedown.Json.Basic
import Shakedown.Text.Surrogate

/-!
# Writing JSON

The compact form: no blanks, and escapes only where a string needs them.
-/

namespace Shakedown
namespace Json

/-- How a character is written inside a string: quote, backslash and control characters are
escaped, all else stands for itself. -/
def escape (char : Char) : List Char :=
  if char = '\x22' then ['\\', '\x22']
  else if char = '\\' then ['\\', '\\']
  else if char = '\n' then ['\\', 'n']
  else if char = '\r' then ['\\', 'r']
  else if char = '\t' then ['\\', 't']
  else if char = '\x08' then ['\\', 'b']
  else if char = '\x0c' then ['\\', 'f']
  else if char.toNat < 32 then
    ['\\', 'u', '0', '0', hexDigit (char.toNat / 16), hexDigit (char.toNat % 16)]
  else [char]

/-- A string with its quotes. -/
def writeText (text : String) : List Char :=
  '\x22' :: (text.toList.flatMap escape ++ ['\x22'])

/-- The texts of the parts with commas between them. -/
def commaSeparated : List (List Char) → List Char
  | [] => []
  | [part] => part
  | part :: parts => part ++ ',' :: commaSeparated parts

/-- A value that may be absent, absence as `null`. -/
def writeOptional {α : Type} (write : α → List Char) : Option α → List Char
  | none => "null".toList
  | some value => write value

/-- An array. -/
def writeArray (items : List (List Char)) : List Char :=
  '[' :: (commaSeparated items ++ [']'])

/-- A member of an object. -/
def writeMember (key : String) (value : List Char) : List Char :=
  writeText key ++ ':' :: value

/-- An object, given by its members. -/
def writeObject (members : List (List Char)) : List Char :=
  '\x7b' :: (commaSeparated members ++ ['\x7d'])

end Json
end Shakedown
