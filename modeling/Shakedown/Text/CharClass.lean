import Shakedown.Text.CharTable

/-!
# Character classes of text patterns

The classes that the patterns over bundled text speak of, in the sense of Unicode: blanks, decimal
digits and word characters.
-/

namespace Shakedown
namespace CharClass

/-- An ASCII letter. -/
def isAsciiLetter (char : Char) : Bool :=
  ('a' ≤ char && char ≤ 'z') || ('A' ≤ char && char ≤ 'Z')

/-- An ASCII digit. -/
def isAsciiDigit (char : Char) : Bool :=
  '0' ≤ char && char ≤ '9'

/-- A character with the property `White_Space`. -/
def isBlank (char : Char) : Bool :=
  if char.toNat < 128 then
    char == ' ' || (9 ≤ char.toNat && char.toNat ≤ 13)
  else
    CharTable.contains CharTable.whiteSpace char

/-- A decimal digit of any script. -/
def isDigit (char : Char) : Bool :=
  if char.toNat < 128 then isAsciiDigit char
  else CharTable.contains CharTable.decimalDigit char

/-- A word character: a letter, mark, decimal digit, connector or joiner of any script. -/
def isWord (char : Char) : Bool :=
  if char.toNat < 128 then
    isAsciiLetter char || isAsciiDigit char || char == '_'
  else
    CharTable.contains CharTable.wordOnly char ||
      ((CharTable.contains CharTable.identifierStart char ||
          CharTable.contains CharTable.identifierExtend char) &&
        !CharTable.contains CharTable.identifierOnly char)

/-- Every character that core takes for white space is a blank. -/
theorem isBlank_of_isWhitespace {char : Char} (white : char.isWhitespace = true) :
    isBlank char = true := by
  simp only [Char.isWhitespace, Bool.or_eq_true, decide_eq_true_eq] at white
  rcases white with ((rfl | rfl) | rfl) | rfl <;> decide

end CharClass

namespace Text

/-- The text without the blanks at its front. -/
def trimFront (text : List Char) : List Char :=
  text.dropWhile CharClass.isBlank

/-- The text without the blanks at its end. -/
def trimBack (text : List Char) : List Char :=
  (trimFront text.reverse).reverse

end Text
end Shakedown
