/-!
# Surrogates in escapes

Escapes name UTF-16 units. Two units of the right kinds in a row stand for one character beyond the
first plane; a surrogate without its partner stands for no character.
-/

namespace Shakedown

/-- A piece of a string as it is written. -/
inductive Piece
  /-- A character that stands for itself or is named as a whole. -/
  | char (value : Char)
  /-- A UTF-16 unit named by its number. -/
  | unit (value : Nat)
  deriving DecidableEq, Repr

namespace Surrogate

/-- A unit that begins a surrogate pair. -/
def isHigh (unit : Nat) : Bool :=
  0xD800 ≤ unit && unit < 0xDC00

/-- A unit that ends a surrogate pair. -/
def isLow (unit : Nat) : Bool :=
  0xDC00 ≤ unit && unit < 0xE000

/-- The character that a pair encodes. -/
def combine (high low : Nat) : Char :=
  Char.ofNat (0x10000 + (high - 0xD800) * 0x400 + (low - 0xDC00))

end Surrogate

/-- The value of a hexadecimal digit. -/
def hexDigit? (char : Char) : Option Nat :=
  if '0' ≤ char ∧ char ≤ '9' then some (char.toNat - '0'.toNat)
  else if 'a' ≤ char ∧ char ≤ 'f' then some (char.toNat - 'a'.toNat + 10)
  else if 'A' ≤ char ∧ char ≤ 'F' then some (char.toNat - 'A'.toNat + 10)
  else none

/-- A hexadecimal digit in lower case. -/
def hexDigit (digit : Nat) : Char :=
  "0123456789abcdef".toList.getD digit '0'

namespace Piece

/-- The pieces with every surrogate pair made one character. -/
def pair : List Piece → List Piece
  | [] => []
  | .char value :: rest => .char value :: pair rest
  | .unit high :: rest =>
      match pair rest with
      | .unit low :: rest' =>
          if Surrogate.isHigh high && Surrogate.isLow low then
            .char (Surrogate.combine high low) :: rest'
          else
            .unit high :: .unit low :: rest'
      | rest' =>
          if Surrogate.isHigh high || Surrogate.isLow high then .unit high :: rest'
          else .char (Char.ofNat high) :: rest'

/-- The text that pieces stand for; none when a surrogate is unpaired. -/
def text? (pieces : List Piece) : Option (List Char) :=
  (pair pieces).mapM fun
    | .char value => some value
    | .unit _ => none

/-- The four hexadecimal digits of a unit. -/
def unitDigits (unit : Nat) : List Char :=
  [hexDigit (unit / 4096 % 16), hexDigit (unit / 256 % 16), hexDigit (unit / 16 % 16),
    hexDigit (unit % 16)]

/-- The text that pieces stand for, an unpaired surrogate written as the replacement character and
four digits. A replacement character is then written in the same way. -/
def textWithEscapes (pieces : List Piece) : List Char :=
  match text? pieces with
  | some text => text
  | none =>
      (pair pieces).flatMap fun
        | .char value => if value = '\ufffd' then '\ufffd' :: "fffd".toList else [value]
        | .unit value => '\ufffd' :: unitDigits value

end Piece
end Shakedown
