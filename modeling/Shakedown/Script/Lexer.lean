import Shakedown.Script.Token
import Shakedown.Text.Surrogate

/-!
# Reading tokens

Reading a token skips the blanks and comments before it. A slash is read as an operator; where the
grammar has room for a regular expression the reader of the tree asks for one, and in the same way
for the piece of a template behind a substitution.
-/

namespace Shakedown
namespace Lexer

/-! ## Blanks and comments -/

/-- Where the skipping of blanks and comments is. -/
inductive SkipMode
  /-- Between comments. -/
  | between
  /-- In a comment that the end of the line ends. -/
  | line (start : Nat)
  /-- In a comment that a star and a slash end. -/
  | block (start : Nat)

/-- What was skipped before a token. -/
structure Skipped where
  /-- The text from the token on. -/
  after : List Char
  /-- Byte offset of the token. -/
  offset : Nat
  /-- Whether a line ended. -/
  endedLine : Bool
  /-- The comments, the last one first. -/
  comments : List Span

/-- Skips blanks and comments; none when a comment does not end. -/
def skip (mode : SkipMode) (offset : Nat) (endedLine : Bool) (comments : List Span) :
    List Char → Option Skipped
  | [] =>
      match mode with
      | .between => some ⟨[], offset, endedLine, comments⟩
      | .line start => some ⟨[], offset, endedLine, ⟨start, offset⟩ :: comments⟩
      | .block _ => none
  | char :: [] =>
      let next := offset + char.utf8Size
      match mode with
      | .between =>
          if ScriptChar.endsLine char then some ⟨[], next, true, comments⟩
          else if ScriptChar.isBlank char then some ⟨[], next, endedLine, comments⟩
          else some ⟨[char], offset, endedLine, comments⟩
      | .line start =>
          if ScriptChar.endsLine char then some ⟨[], next, true, ⟨start, offset⟩ :: comments⟩
          else some ⟨[], next, endedLine, ⟨start, next⟩ :: comments⟩
      | .block _ => none
  | char :: second :: rest =>
      let next := offset + char.utf8Size
      match mode with
      | .between =>
          if ScriptChar.endsLine char then skip .between next true comments (second :: rest)
          else if ScriptChar.isBlank char then
            skip .between next endedLine comments (second :: rest)
          else if char = '/' && second = '/' then
            skip (.line offset) (offset + 2) endedLine comments rest
          else if char = '/' && second = '*' then
            skip (.block offset) (offset + 2) endedLine comments rest
          else
            some ⟨char :: second :: rest, offset, endedLine, comments⟩
      | .line start =>
          if ScriptChar.endsLine char then
            skip .between next true (⟨start, offset⟩ :: comments) (second :: rest)
          else
            skip (.line start) next endedLine comments (second :: rest)
      | .block start =>
          if char = '*' && second = '/' then
            skip .between (offset + 2) endedLine (⟨start, offset + 2⟩ :: comments) rest
          else
            skip (.block start) next (endedLine || ScriptChar.endsLine char) comments
              (second :: rest)

/-! ## Names -/

/-- The value of hexadecimal digits up to a closing brace, and the text behind it. -/
def bracedValue? (value : Nat) (isEmpty : Bool) : List Char → Option (Nat × List Char)
  | [] => none
  | char :: rest =>
      if char = '\x7d' then
        if isEmpty then none else some (value, rest)
      else
        match hexDigit? char with
        | none => none
        | some digit =>
            let value := 16 * value + digit
            if 0x110000 ≤ value then none else bracedValue? value false rest

/-- The number named by an escape whose `\u` is behind, and the text behind it. -/
def unicodeEscape? : List Char → Option (Nat × List Char)
  | '\x7b' :: rest => bracedValue? 0 true rest
  | a :: b :: c :: d :: rest =>
      match hexDigit? a, hexDigit? b, hexDigit? c, hexDigit? d with
      | some a, some b, some c, some d => some (4096 * a + 256 * b + 16 * c + d, rest)
      | _, _, _, _ => none
  | _ => none

/-- The character with a number, unless the number is that of a surrogate. -/
def scalar? (value : Nat) : Option Char :=
  if Surrogate.isHigh value || Surrogate.isLow value then none else some (Char.ofNat value)

/-- Reads characters of a name as long as they fit: the name, whether it has escapes, and the rest.
`opening` tells that the first character is still to come. None when an escape is malformed. -/
def readName : (limit : Nat) → (opening : Bool) → List Char →
    Option (List Char × Bool × List Char)
  | 0, _, text => some ([], false, text)
  | _ + 1, _, [] => some ([], false, [])
  | limit + 1, opening, '\\' :: rest =>
      match rest with
      | 'u' :: digits =>
          match unicodeEscape? digits with
          | none => none
          | some (value, rest) =>
              match scalar? value with
              | none => none
              | some char =>
                  if if opening then ScriptChar.beginsName char else ScriptChar.continuesName char
                  then
                    (readName limit false rest).map fun (name, _, rest) =>
                      (char :: name, true, rest)
                  else
                    none
      | _ => none
  | limit + 1, opening, char :: rest =>
      if if opening then ScriptChar.beginsName char else ScriptChar.continuesName char then
        (readName limit false rest).map fun (name, isEscaped, rest) =>
          (char :: name, isEscaped, rest)
      else
        some ([], false, char :: rest)

/-- Whether a name begins at a place. -/
def namesBegin : List Char → Bool
  | [] => false
  | char :: _ => ScriptChar.beginsName char || char == '\\'

/-! ## Numbers -/

/-- Reads digits with single underscores between them; none when an underscore has no digit on both
sides. `behindDigit` tells whether a digit was just read. -/
def readDigits (isDigit : Char → Bool) (behindDigit : Bool) : List Char → Option (List Char)
  | [] => some []
  | '_' :: rest =>
      match behindDigit, rest with
      | true, char :: _ => if isDigit char then readDigits isDigit false rest else none
      | _, _ => none
  | char :: rest => if isDigit char then readDigits isDigit true rest else some (char :: rest)

/-- Reads digits, at least one. -/
def readSomeDigits (isDigit : Char → Bool) : List Char → Option (List Char)
  | [] => none
  | char :: rest => if isDigit char then readDigits isDigit true rest else none

/-- Whether a character is a digit in a base up to sixteen. -/
def isDigitOf (base : Nat) (char : Char) : Bool :=
  (hexDigit? char).any (· < base)

/-- Reads the exponent of a number, if one begins. -/
def readExponent : List Char → Option (List Char)
  | [] => some []
  | char :: rest =>
      if char = 'e' ∨ char = 'E' then
        match rest with
        | '+' :: rest => readSomeDigits ScriptChar.isDigit rest
        | '-' :: rest => readSomeDigits ScriptChar.isDigit rest
        | rest => readSomeDigits ScriptChar.isDigit rest
      else
        some (char :: rest)

/-- Reads the end of a whole number, which may be the mark of a big one. -/
def readBigMark : List Char → List Char
  | 'n' :: rest => rest
  | rest => rest

/-- Reads the fraction of a number, if one begins. -/
def readFraction : List Char → Option (List Char)
  | '.' :: '_' :: _ => none
  | '.' :: rest => readDigits ScriptChar.isDigit false rest
  | rest => some rest

/-- Reads a number in a base that its first two characters name. -/
def readBased (base : Nat) (text : List Char) : Option (List Char) :=
  (readSomeDigits (isDigitOf base) text).map readBigMark

/-- Reads a number that begins with a zero and another digit: octal, or decimal when it has a digit
above seven. -/
def readZeroLed (text : List Char) : Option (List Char) :=
  let digits := text.takeWhile ScriptChar.isDigit
  let rest := text.dropWhile ScriptChar.isDigit
  if digits.all (isDigitOf 8) then some rest
  else (readFraction rest).bind readExponent

/-- Reads a number up to the text behind it. -/
def readNumber : List Char → Option (List Char)
  | '0' :: 'x' :: rest => readBased 16 rest
  | '0' :: 'X' :: rest => readBased 16 rest
  | '0' :: 'o' :: rest => readBased 8 rest
  | '0' :: 'O' :: rest => readBased 8 rest
  | '0' :: 'b' :: rest => readBased 2 rest
  | '0' :: 'B' :: rest => readBased 2 rest
  | '0' :: '_' :: _ => none
  | '0' :: char :: rest =>
      if ScriptChar.isDigit char then readZeroLed (char :: rest)
      else if char = 'n' then some rest
      else (readFraction (char :: rest)).bind readExponent
  | '.' :: rest => (readSomeDigits ScriptChar.isDigit rest).bind readExponent
  | text =>
      (readSomeDigits ScriptChar.isDigit text).bind fun rest =>
        match rest with
        | 'n' :: rest => some rest
        | rest => (readFraction rest).bind readExponent

/-- Whether a number may end before a text: what follows is neither a name nor a digit. -/
def endsNumber : List Char → Bool
  | [] => true
  | char :: _ => !ScriptChar.continuesName char && char != '\\'

/-! ## Strings and templates -/

/-- The value of one to three octal digits whose first is behind, and the text behind them. -/
def octalValue (first : Nat) (rest : List Char) : Nat × List Char :=
  match rest with
  | [] => (first, [])
  | a :: rest' =>
      match (hexDigit? a).filter (· < 8) with
      | none => (first, rest)
      | some second =>
          match rest' with
          | [] => (8 * first + second, [])
          | b :: rest'' =>
              match (hexDigit? b).filter fun digit => digit < 8 && first < 4 with
              | none => (8 * first + second, rest')
              | some third => (64 * first + 8 * second + third, rest'')

/-- What an escape whose backslash is behind stands for, whether a template may hold it, and the
text behind it; none when it is malformed. -/
def readEscape : List Char → Option (List Piece × Bool × List Char)
  | [] => none
  | 'n' :: rest => some ([.char '\n'], true, rest)
  | 't' :: rest => some ([.char '\t'], true, rest)
  | 'r' :: rest => some ([.char '\r'], true, rest)
  | 'b' :: rest => some ([.char '\x08'], true, rest)
  | 'f' :: rest => some ([.char '\x0c'], true, rest)
  | 'v' :: rest => some ([.char '\x0b'], true, rest)
  | '\r' :: '\n' :: rest => some ([], true, rest)
  | 'x' :: a :: b :: rest =>
      match hexDigit? a, hexDigit? b with
      | some a, some b => some ([.unit (16 * a + b)], true, rest)
      | _, _ => none
  | 'x' :: _ => none
  | 'u' :: rest =>
      (unicodeEscape? rest).map fun (value, rest) =>
        (if value < 0x10000 then [.unit value] else [.char (Char.ofNat value)], true, rest)
  | char :: rest =>
      if ScriptChar.endsLine char then some ([], true, rest)
      else if ScriptChar.isDigit char then
        let digit := char.toNat - '0'.toNat
        if digit < 8 then
          let (value, rest') := octalValue digit rest
          let isNull := digit == 0 && !(rest.head?.any ScriptChar.isDigit)
          some ([.char (Char.ofNat value)], isNull, rest')
        else
          some ([.char char], false, rest)
      else
        some ([.char char], true, rest)

/-- Reads a string whose opening quote is behind: its pieces, and the text behind the closing
quote. -/
def readString (quote : Char) : (limit : Nat) → List Char → Option (List Piece × List Char)
  | 0, _ => none
  | _ + 1, [] => none
  | limit + 1, char :: rest =>
      if char = quote then some ([], rest)
      else if char = '\n' ∨ char = '\r' then none
      else if char = '\\' then
        match readEscape rest with
        | none => none
        | some (pieces, _, rest) =>
            (readString quote limit rest).map fun (others, rest) => (pieces ++ others, rest)
      else
        (readString quote limit rest).map fun (others, rest) => (.char char :: others, rest)

/-- Reads a piece of a template: whether its escapes are valid, whether the template ends with it,
and the text behind it. -/
def readTemplate : (limit : Nat) → List Char → Option (Bool × Bool × List Char)
  | 0, _ => none
  | _ + 1, [] => none
  | _ + 1, '\x60' :: rest => some (true, true, rest)
  | _ + 1, '$' :: '\x7b' :: rest => some (true, false, rest)
  | limit + 1, '\\' :: rest =>
      match readEscape rest with
      | some (_, isValid, rest) =>
          (readTemplate limit rest).map fun (valid, isLast, rest) =>
            (isValid && valid, isLast, rest)
      | none =>
          match rest with
          | [] => none
          | _ :: rest =>
              (readTemplate limit rest).map fun (_, isLast, rest) => (false, isLast, rest)
  | limit + 1, _ :: rest => readTemplate limit rest

/-! ## Regular expressions -/

/-- Reads the body of a regular expression whose opening slash is behind, up to and with the
closing one. -/
def readRegexBody (inClass : Bool) : List Char → Option (List Char)
  | [] => none
  | '\\' :: char :: rest =>
      if ScriptChar.endsLine char then none else readRegexBody inClass rest
  | char :: rest =>
      if ScriptChar.endsLine char then none
      else if char = '/' && !inClass then some rest
      else if char = '[' then readRegexBody true rest
      else if char = ']' then readRegexBody false rest
      else readRegexBody inClass rest

/-- The flags that a regular expression may have, each once. -/
def regexFlags : List Char :=
  ['d', 'g', 'i', 'm', 's', 'u', 'v', 'y']

/-- Whether a list has no element twice. -/
def allDistinct : List Char → Bool
  | [] => true
  | char :: rest => !rest.contains char && allDistinct rest

/-- Reads a regular expression whose opening slash is behind. -/
def readRegex (text : List Char) : Option (List Char) :=
  (readRegexBody false text).bind fun rest =>
    let flags := rest.takeWhile ScriptChar.continuesName
    let rest := rest.dropWhile ScriptChar.continuesName
    if flags.all regexFlags.contains && allDistinct flags && rest.head? != some '\\' then some rest
    else none

/-! ## Tokens -/

/-- The longest sign that a text begins with. A question mark and a dot before a digit are two
signs. -/
def signOf? (text : List Char) : Option (List Char) :=
  signs.find? fun sign =>
    sign.isPrefixOf text &&
      !(sign == ['?', '.'] && ((text.drop 2).head?.any ScriptChar.isDigit))

/-- The text between two places of which the second is not before the first. -/
def rawText (text after : List Char) : List Char :=
  text.take (text.length - after.length)

/-- A token that begins where `skipped` ends. -/
def tokenOf (skipped : Skipped) (kind : TokenKind) (after : List Char) : Token :=
  { kind
    span := ⟨skipped.offset, skipped.offset + Text.width (rawText skipped.after after)⟩
    opensLine := skipped.endedLine
    after }

/-- Reads the token that begins where `skipped` ends. -/
def readToken? (skipped : Skipped) : Option Token :=
  let text := skipped.after
  let limit := text.length + 1
  let token := tokenOf skipped
  match text with
  | [] => some (token .finish [])
  | '\x27' :: rest =>
      (readString '\x27' limit rest).map fun (pieces, after) =>
        token (.string (String.ofList (Piece.textWithEscapes pieces))
          (String.ofList (rawText text after))) after
  | '\x22' :: rest =>
      (readString '\x22' limit rest).map fun (pieces, after) =>
        token (.string (String.ofList (Piece.textWithEscapes pieces))
          (String.ofList (rawText text after))) after
  | '\x60' :: rest =>
      (readTemplate limit rest).map fun (isValid, isLast, after) =>
        token (.template (String.ofList (rawText text after)) isValid isLast) after
  | '#' :: rest =>
      if namesBegin rest then
        (readName limit true rest).map fun (name, _, after) =>
          token (.privateName (String.ofList name)) after
      else
        none
  | char :: rest =>
      if ScriptChar.isDigit char || (char == '.' && rest.head?.any ScriptChar.isDigit) then
        (readNumber text).bind fun after =>
          if endsNumber after then some (token (.number (String.ofList (rawText text after))) after)
          else none
      else if namesBegin text then
        (readName limit true text).map fun (name, isEscaped, after) =>
          token (.word (String.ofList name) isEscaped) after
      else
        (signOf? text).map fun sign =>
          token (.sign (String.ofList sign)) (text.drop sign.length)

/-- Reads the next token from a byte offset on, with the comments before it, the last one first. -/
def next (offset : Nat) (text : List Char) : Except SyntaxFault (Token × List Span) :=
  match skip .between offset false [] text with
  | none => .error ⟨offset⟩
  | some skipped =>
      match readToken? skipped with
      | none => .error ⟨skipped.offset⟩
      | some token => .ok (token, skipped.comments)

/-- Reads the regular expression whose opening slash is the start of `slash`. -/
def regexAt (slash : Token) : Except SyntaxFault Token :=
  match slash.kind with
  | .sign sign =>
      let text := sign.toList ++ slash.after
      match readRegex (text.drop 1) with
      | none => .error ⟨slash.span.start⟩
      | some after =>
          let raw := rawText text after
          .ok
            { kind := .regex (String.ofList raw)
              span := ⟨slash.span.start, slash.span.start + Text.width raw⟩
              opensLine := slash.opensLine
              after }
  | _ => .error ⟨slash.span.start⟩

/-- Reads the piece of a template behind the substitution that `brace` closes. -/
def templateAt (brace : Token) : Except SyntaxFault Token :=
  match readTemplate (brace.after.length + 1) brace.after with
  | none => .error ⟨brace.span.start⟩
  | some (isValid, isLast, after) =>
      let raw := '\x7d' :: rawText brace.after after
      .ok
        { kind := .template (String.ofList raw) isValid isLast
          span := ⟨brace.span.start, brace.span.start + Text.width raw⟩
          opensLine := brace.opensLine
          after }

/-- The first line of a text, when it names an interpreter. -/
def hashbang? (text : List Char) : Option (Span × List Char) :=
  match text with
  | '#' :: '!' :: rest =>
      let line := rest.takeWhile fun char => !ScriptChar.endsLine char
      let after := rest.dropWhile fun char => !ScriptChar.endsLine char
      some (⟨0, 2 + Text.width line⟩, after)
  | _ => none

end Lexer
end Shakedown
