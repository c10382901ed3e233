import Shakedown.Text.Basic
import Shakedown.Text.CharClass

/-!
# Text patterns

Patterns over characters with ordered choice: of all ways to match, the first in the order of the
choices counts. A greedy repetition tries to go on before it tries to stop, a lazy one the other
way round. Groups remember the text that a part of the pattern matched.
-/

namespace Shakedown

/-- A place in a text. -/
structure Cursor where
  /-- What stands before the place, the nearest character first. -/
  before : List Char
  /-- What stands behind the place. -/
  after : List Char
  deriving DecidableEq, Repr, Inhabited

namespace Cursor

/-- The start of a text. -/
def ofText (text : List Char) : Cursor := ⟨[], text⟩

/-- The place behind the next `count` characters. -/
def skip : Nat → Cursor → Cursor
  | 0, cursor => cursor
  | count + 1, ⟨before, char :: after⟩ => skip count ⟨char :: before, after⟩
  | _ + 1, ⟨before, []⟩ => ⟨before, []⟩

/-- Byte offset of the place. -/
def offset (cursor : Cursor) : Nat :=
  Text.width cursor.before

/-- The text between two places. -/
def between (first last : Cursor) : List Char :=
  first.after.take (first.after.length - last.after.length)

/-- Whether the place is the start of the text or stands behind a line feed. -/
def opensLine (cursor : Cursor) : Bool :=
  match cursor.before with
  | [] => true
  | char :: _ => char == '\n'

/-- Whether `part` stands directly before the place. -/
def follows (cursor : Cursor) (part : List Char) : Bool :=
  part.reverse.isPrefixOf cursor.before

end Cursor

/-- A pattern over the characters of a text. -/
inductive Pattern
  /-- The empty text. -/
  | empty
  /-- One character of a class. -/
  | one (accepts : Char → Bool)
  /-- One pattern behind another. -/
  | seq (first second : Pattern)
  /-- The first pattern, or else the second. -/
  | choice (first second : Pattern)
  /-- As many repetitions as possible. -/
  | many (body : Pattern)
  /-- As few repetitions as possible. -/
  | few (body : Pattern)
  /-- The start of a line. -/
  | lineStart
  /-- A pattern whose matched text is remembered under a number. -/
  | group (number : Nat) (body : Pattern)

/-- The texts of the groups, the latest first. -/
abbrev Groups := List (Nat × List Char)

namespace Pattern

/-- A given text. -/
def literal (text : List Char) : Pattern :=
  text.foldr (fun char rest => seq (one (· == char)) rest) empty

/-- Patterns one behind the other. -/
def all (patterns : List Pattern) : Pattern :=
  patterns.foldr seq empty

/-- The first of the patterns that leads to a match. -/
def any : List Pattern → Pattern
  | [] => one fun _ => false
  | [pattern] => pattern
  | pattern :: rest => choice pattern (any rest)

/-- A pattern or nothing. -/
def optional (body : Pattern) : Pattern :=
  choice body empty

/-- One or more repetitions, as many as possible. -/
def some (body : Pattern) : Pattern :=
  seq body (many body)

/-- A line break with or without a carriage return. -/
def lineBreak : Pattern :=
  seq (optional (one (· == '\r'))) (one (· == '\n'))

/-- One or more characters that are no blanks, as many as possible. -/
def visible : Pattern :=
  some (one fun char => !CharClass.isBlank char)

/-- One or more decimal digits. -/
def digits : Pattern :=
  some (one CharClass.isDigit)

/-- Word characters, possibly none. -/
def word : Pattern :=
  many (one CharClass.isWord)

/-- What follows a part of a match. -/
abbrev Continuation (α : Type) := Cursor → Groups → Option α

/-- Repetitions of `body`, going on before stopping. A repetition that takes no character is
refused, so there are at most as many as there are characters left. -/
def repeatMany {α : Type} (body : Continuation α → Continuation α) (next : Continuation α) :
    (limit : Nat) → Continuation α
  | 0, cursor, groups => next cursor groups
  | limit + 1, cursor, groups =>
      let more : Continuation α := fun cursor' groups' =>
        if cursor'.after.length < cursor.after.length then
          repeatMany body next limit cursor' groups'
        else
          none
      body more cursor groups <|> next cursor groups

/-- Repetitions of `body`, stopping before going on. -/
def repeatFew {α : Type} (body : Continuation α → Continuation α) (next : Continuation α) :
    (limit : Nat) → Continuation α
  | 0, cursor, groups => next cursor groups
  | limit + 1, cursor, groups =>
      let more : Continuation α := fun cursor' groups' =>
        if cursor'.after.length < cursor.after.length then
          repeatFew body next limit cursor' groups'
        else
          none
      next cursor groups <|> body more cursor groups

/-- Matches a pattern at a place and goes on with `next`, trying the choices in order until `next`
answers. -/
def run {α : Type} : Pattern → Continuation α → Continuation α
  | empty, next, cursor, groups => next cursor groups
  | one accepts, next, cursor, groups =>
      match cursor.after with
      | [] => none
      | char :: after => if accepts char then next ⟨char :: cursor.before, after⟩ groups else none
  | seq first second, next, cursor, groups =>
      first.run (fun cursor groups => second.run next cursor groups) cursor groups
  | choice first second, next, cursor, groups =>
      first.run next cursor groups <|> second.run next cursor groups
  | many body, next, cursor, groups =>
      repeatMany (fun next => body.run next) next cursor.after.length cursor groups
  | few body, next, cursor, groups =>
      repeatFew (fun next => body.run next) next cursor.after.length cursor groups
  | lineStart, next, cursor, groups => if cursor.opensLine then next cursor groups else none
  | group number body, next, cursor, groups =>
      let noted : Continuation α := fun stop groups =>
        next stop ((number, cursor.between stop) :: groups)
      body.run noted cursor groups

end Pattern

/-- A part of a text that a pattern matched. -/
structure Match where
  /-- Where the match begins. -/
  start : Cursor
  /-- Where the match ends. -/
  stop : Cursor
  /-- The texts of the groups. -/
  groups : Groups
  deriving Repr, Inhabited

namespace Match

/-- The matched text. -/
def text (found : Match) : List Char :=
  found.start.between found.stop

/-- The text of a group; a group that took no part has none. -/
def group (found : Match) (number : Nat) : List Char :=
  (found.groups.lookup number).getD []

/-- The bytes that the match takes up. -/
def span (found : Match) : Span :=
  ⟨found.start.offset, found.stop.offset⟩

end Match

namespace Pattern

/-- The match that begins at a place. -/
def matchAt? (pattern : Pattern) (cursor : Cursor) : Option Match :=
  pattern.run (fun stop groups => Option.some ⟨cursor, stop, groups⟩) cursor []

end Pattern
end Shakedown
