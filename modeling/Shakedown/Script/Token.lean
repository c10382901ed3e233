import Shakedown.Text.Basic
import Shakedown.Text.CharTable

/-!
# Tokens of scripts

A token says what it is, which bytes it takes up, whether a line ends between it and the token
before, and what is left of the text behind it.
-/

namespace Shakedown

/-- What a token is. -/
inductive TokenKind
  /-- The end of the text. -/
  | finish
  /-- A name or keyword without escapes, and whether it is written with any. -/
  | word (text : String) (isEscaped : Bool)
  /-- The name of a private member, without its sign. -/
  | privateName (text : String)
  /-- An operator or bracket. -/
  | sign (text : String)
  /-- A number as it is written. -/
  | number (raw : String)
  /-- A string with its value and as it is written. -/
  | string (value raw : String)
  /-- A piece of a template as it is written; whether its escapes are valid, and whether the
  template ends with it. -/
  | template (raw : String) (isValid isLast : Bool)
  /-- A regular expression as it is written. -/
  | regex (raw : String)
  deriving DecidableEq, Repr, Inhabited

/-- A token in its text. -/
structure Token where
  /-- What it is. -/
  kind : TokenKind
  /-- The bytes that it takes up. -/
  span : Span
  /-- Whether a line ends before it, behind the token before. -/
  opensLine : Bool
  /-- The text behind it. -/
  after : List Char
  deriving Repr, Inhabited

/-- A script that breaks the grammar. -/
structure SyntaxFault where
  /-- Byte offset of the token that does not fit. -/
  offset : Nat
  deriving DecidableEq, Repr, Inhabited

/-- What is said about a fault. -/
def SyntaxFault.remark : String := "Unexpected token"

namespace ScriptChar

/-- A character that ends a line. -/
def endsLine (char : Char) : Bool :=
  char == '\n' || char == '\r' || char == '\u2028' || char == '\u2029'

/-- A blank that does not end a line. -/
def isBlank (char : Char) : Bool :=
  if char.toNat < 128 then
    char == ' ' || char == '\t' || char == '\x0b' || char == '\x0c'
  else
    char == '\u0085' || char == '\u00a0' || char == '\u1680' || char == '\u202f' ||
      char == '\u205f' || char == '\u3000' || char == '\ufeff' ||
      ('\u2000' ≤ char && char ≤ '\u200b')

/-- An ASCII letter. -/
def isLetter (char : Char) : Bool :=
  ('a' ≤ char && char ≤ 'z') || ('A' ≤ char && char ≤ 'Z')

/-- An ASCII digit. -/
def isDigit (char : Char) : Bool :=
  '0' ≤ char && char ≤ '9'

/-- A character that may begin a name. -/
def beginsName (char : Char) : Bool :=
  if char.toNat < 128 then
    isLetter char || char == '$' || char == '_'
  else
    CharTable.contains CharTable.identifierStart char

/-- A character that may continue a name. -/
def continuesName (char : Char) : Bool :=
  if char.toNat < 128 then
    isLetter char || isDigit char || char == '$' || char == '_'
  else
    char == '\u200c' || char == '\u200d' ||
      CharTable.contains CharTable.identifierStart char ||
      CharTable.contains CharTable.identifierExtend char

end ScriptChar

/-- The signs of three or more characters, of two, and of one. -/
def signs : List (List Char) :=
  [ ">>>=", "...", "===", "!==", "**=", "<<=", ">>=", ">>>", "&&=", "||=", "??="
  , "=>", "==", "!=", "<=", ">=", "&&", "||", "??", "?.", "++", "--", "+=", "-=", "*=", "/=", "%="
  , "&=", "|=", "^=", "<<", ">>", "**"
  , "\x7b", "\x7d", "(", ")", "[", "]", ";", ",", "<", ">", "+", "-", "*", "/", "%", "&", "|", "^"
  , "!", "~", "?", ":", "=", ".", "@" ].map String.toList

/-- The words that never are names. -/
def reservedWords : List String :=
  [ "break", "case", "catch", "class", "const", "continue", "debugger", "default", "delete", "do"
  , "else", "enum", "export", "extends", "false", "finally", "for", "function", "if", "import"
  , "in", "instanceof", "new", "null", "return", "super", "switch", "this", "throw", "true", "try"
  , "typeof", "var", "void", "while", "with" ]

/-- Words that a list of exports may not use for a name of the module. -/
def strictReservedWords : List String :=
  [ "implements", "interface", "let", "package", "private", "protected", "public", "static"
  , "yield" ]

end Shakedown
