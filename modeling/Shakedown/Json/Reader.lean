import Shakedown.Json.Basic
import Shakedown.Text.Surrogate

/-!
# Reading JSON

A strict reader: one value, blanks around it, and nothing else. Numbers have no leading zeros,
strings no raw control characters, and lists no trailing commas.
-/

namespace Shakedown
namespace Json

/-- The rest of a text behind its leading blanks. -/
def skipBlanks (text : List Char) : List Char :=
  text.dropWhile fun char => char == ' ' || char == '\t' || char == '\n' || char == '\r'

/-- The UTF-16 unit that four hexadecimal digits name. -/
def unit? (a b c d : Char) : Option Nat := do
  return 4096 * (← hexDigit? a) + 256 * (← hexDigit? b) + 16 * (← hexDigit? c) + (← hexDigit? d)

/-- The character of an escape of one letter. -/
def shortEscape? : Char → Option Char
  | '\x22' => some '\x22'
  | '\\' => some '\\'
  | '/' => some '/'
  | 'b' => some '\x08'
  | 'f' => some '\x0c'
  | 'n' => some '\n'
  | 'r' => some '\r'
  | 't' => some '\t'
  | _ => none

/-- Reads the pieces of a string whose opening quote is behind, up to and with the closing one. -/
def readPieces : List Char → Option (List Piece × List Char)
  | [] => none
  | '\x22' :: rest => some ([], rest)
  | '\\' :: 'u' :: a :: b :: c :: d :: rest => do
      let unit ← unit? a b c d
      let (pieces, rest) ← readPieces rest
      return (.unit unit :: pieces, rest)
  | '\\' :: escape :: rest => do
      let char ← shortEscape? escape
      let (pieces, rest) ← readPieces rest
      return (.char char :: pieces, rest)
  | char :: rest => do
      if char.toNat < 32 then
        none
      let (pieces, rest) ← readPieces rest
      return (.char char :: pieces, rest)

/-- Reads a string whose opening quote is behind, up to and with the closing one. The text is none
when an escape leaves a surrogate unpaired. -/
def readString (text : List Char) : Option (Option (List Char) × List Char) :=
  (readPieces text).map fun (pieces, rest) => (Piece.text? pieces, rest)

/-- Whether a character is a decimal digit. -/
def isDigit (char : Char) : Bool :=
  '0' ≤ char && char ≤ '9'

/-- The number that decimal digits stand for. -/
def digitsValue (digits : List Char) : Nat :=
  digits.foldl (fun value digit => 10 * value + (digit.toNat - '0'.toNat)) 0

/-- Reads digits, at least one. -/
def readDigits (text : List Char) : Option (List Char × List Char) :=
  match text.takeWhile isDigit with
  | [] => none
  | digits => some (digits, text.dropWhile isDigit)

/-- Reads the fraction of a number, if there is one. -/
def readFraction : List Char → Option (List Char × List Char)
  | '.' :: rest => (readDigits rest).map fun (digits, rest) => ('.' :: digits, rest)
  | text => some ([], text)

/-- Reads the exponent of a number, if there is one. -/
def readExponent : List Char → Option (List Char × List Char)
  | 'e' :: '+' :: rest => (readDigits rest).map fun (digits, rest) => ('e' :: '+' :: digits, rest)
  | 'e' :: '-' :: rest => (readDigits rest).map fun (digits, rest) => ('e' :: '-' :: digits, rest)
  | 'e' :: rest => (readDigits rest).map fun (digits, rest) => ('e' :: digits, rest)
  | 'E' :: '+' :: rest => (readDigits rest).map fun (digits, rest) => ('E' :: '+' :: digits, rest)
  | 'E' :: '-' :: rest => (readDigits rest).map fun (digits, rest) => ('E' :: '-' :: digits, rest)
  | 'E' :: rest => (readDigits rest).map fun (digits, rest) => ('E' :: digits, rest)
  | text => some ([], text)

/-- Reads a number behind its sign. -/
def readNumber (negative : Bool) (text : List Char) : Option (Json × List Char) := do
  let (whole, rest) ← readDigits text
  if whole.length > 1 && whole.head? == some '0' then
    none
  let (fraction, rest) ← readFraction rest
  let (exponent, rest) ← readExponent rest
  if fraction.isEmpty && exponent.isEmpty && !(negative && digitsValue whole == 0) then
    let value : Int := digitsValue whole
    return (.integer (if negative then -value else value), rest)
  else
    let sign := if negative then ['-'] else []
    return (.decimal (String.ofList (sign ++ whole ++ fraction ++ exponent)), rest)

/-- Reads the items of an array whose first item comes next, up to and with the closing bracket. -/
def readItems (read : List Char → Option (Json × List Char)) :
    (limit : Nat) → List Char → Option (List Json × List Char)
  | 0, _ => none
  | limit + 1, text => do
      let (item, rest) ← read text
      match skipBlanks rest with
      | ',' :: rest =>
          let (items, rest) ← readItems read limit rest
          return (item :: items, rest)
      | ']' :: rest => return ([item], rest)
      | _ => none

/-- Reads the members of an object whose first member comes next, up to and with the closing
brace. -/
def readMembers (read : List Char → Option (Json × List Char)) :
    (limit : Nat) → List Char → Option (List (Option String × Json) × List Char)
  | 0, _ => none
  | limit + 1, text => do
      match skipBlanks text with
      | '\x22' :: rest =>
          let (key, rest) ← readString rest
          match skipBlanks rest with
          | ':' :: rest =>
              let (value, rest) ← read rest
              let member := (key.map String.ofList, value)
              match skipBlanks rest with
              | ',' :: rest =>
                  let (members, rest) ← readMembers read limit rest
                  return (member :: members, rest)
              | '\x7d' :: rest => return ([member], rest)
              | _ => none
          | _ => none
      | _ => none

/-- Reads a value and what is left of the text behind it. Every value nested in another one is
shorter than it, so a limit above the length of the text is never reached. -/
def readValue : (limit : Nat) → List Char → Option (Json × List Char)
  | 0, _ => none
  | limit + 1, text =>
      match skipBlanks text with
      | 'n' :: 'u' :: 'l' :: 'l' :: rest => some (.null, rest)
      | 't' :: 'r' :: 'u' :: 'e' :: rest => some (.bool true, rest)
      | 'f' :: 'a' :: 'l' :: 's' :: 'e' :: rest => some (.bool false, rest)
      | '\x22' :: rest =>
          (readString rest).map fun (text, rest) => (.string (text.map String.ofList), rest)
      | '[' :: rest =>
          match skipBlanks rest with
          | ']' :: rest => some (.array [], rest)
          | rest =>
              (readItems (readValue limit) (limit + 1) rest).map fun (items, rest) =>
                (.array items, rest)
      | '\x7b' :: rest =>
          match skipBlanks rest with
          | '\x7d' :: rest => some (.object [], rest)
          | rest =>
              (readMembers (readValue limit) (limit + 1) rest).map fun (members, rest) =>
                (.object members, rest)
      | '-' :: rest => readNumber true rest
      | rest => readNumber false rest

/-- Reads a text that is one value. -/
def read (text : String) : Option Json :=
  match readValue (text.toList.length + 1) text.toList with
  | some (value, rest) => if (skipBlanks rest).isEmpty then some value else none
  | none => none

end Json
end Shakedown
