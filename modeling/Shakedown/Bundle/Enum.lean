import Shakedown.Marker
import Shakedown.Pattern.Search

/-!
# Enums in bundled text

An enum is compiled to statements that fill an object. Wrapped in a marked closure, the object can
be dropped when it is not used. Two layouts are known: a plain object filled line by line, and an
object filled inside a closure of its own.
-/

namespace Shakedown
namespace Enum

/-- A text in double quotes, remembered under a number. -/
def quoted (number : Nat) : Pattern :=
  .all [.literal ['\x22'], .group number .visible, .literal ['\x22']]

/-- The head of an enum filled line by line: `var X = ` and an empty object. Group 1 is the name. -/
def plainHead : Pattern :=
  .all [.literal "var ".toList, .group 1 .visible, .literal " = \x7b\x7d;".toList, .lineBreak]

/-- A line that numbers a member. -/
def memberLine (name : List Char) : Pattern :=
  .all
    [.literal (name ++ ['.']), .visible, .literal " = ".toList, .digits, .literal [';'], .lineBreak]

/-- The start of a line that names a number: group 1 is the member, group 2 the name. -/
def lookupStart (name : List Char) : Pattern :=
  .all
    [ .literal (name ++ ['['] ++ name ++ ['.']), .group 1 .visible, .literal "] = ".toList
    , quoted 2, .literal [';'] ]

/-- The first line that names a number. -/
def firstLookupLine (name : List Char) : Pattern :=
  .seq (lookupStart name) .lineBreak

/-- A further line that names a number, with any line feeds behind it. -/
def lookupLine (name : List Char) : Pattern :=
  .all [lookupStart name, .optional (.one (· == '\r')), .many (.one (· == '\n'))]

/-- The number of matches that stand one behind the other at a place, and the place behind them. -/
def matchesInARow (pattern : Pattern) : (rounds : Nat) → Cursor → Nat × Cursor
  | 0, cursor => (0, cursor)
  | rounds + 1, cursor =>
      match pattern.matchAt? cursor with
      | none => (0, cursor)
      | some found =>
          let (count, stop) := matchesInARow pattern rounds found.stop
          (count + 1, stop)

/-- The end of the lines of an enum whose head ends at a place: lines that number members, then
lines that name numbers, the first of them naming its own member. -/
def plainEnd? (name : List Char) (cursor : Cursor) : Option Cursor :=
  let (members, cursor) := matchesInARow (memberLine name) cursor.after.length cursor
  if members = 0 then
    none
  else
    match (firstLookupLine name).matchAt? cursor with
    | none => none
    | some first =>
        if first.group 1 != first.group 2 then
          none
        else
          let (lookups, stop) :=
            matchesInARow (lookupLine name) first.stop.after.length first.stop
          if lookups = 0 then none else some stop

/-- The line that opens the closure around an enum filled line by line. -/
def plainOpening (name : List Char) : List Char :=
  "var ".toList ++ name ++ " = ".toList ++ Marker.pure.toList ++ "(function() \x7b\n".toList

/-- The line that closes it. -/
def plainClosing (name : List Char) : List Char :=
  "; return ".toList ++ name ++ ";\x7d)();\n".toList

/-- Wraps an enum filled line by line, unless it is wrapped already. -/
def wrapPlainAt : Pattern.Rule := fun head =>
  let name := head.group 1
  if head.start.follows (plainOpening name) then
    none
  else
    (plainEnd? name head.stop).map fun stop =>
      (plainOpening name ++ head.start.between stop ++ plainClosing name, stop)

/-- Wraps the enums filled line by line. -/
def wrapPlain (text : List Char) : List Char :=
  plainHead.substitute wrapPlainAt text

/-- The head of an enum filled in a closure: `var X;`, then the closure, which takes the object.
Groups 1 and 2 are the two names. -/
def closureHead : Pattern :=
  .all
    [ .literal "var ".toList, .group 1 .visible, .literal [';']
    , .many (.literal Marker.pure.toList), .lineBreak
    , .literal "(function (".toList, .group 2 .visible, .literal ") \x7b".toList ]

/-- A statement that fills both directions of a member; the number is matched by `number`, and the
two spellings of the member are the groups `first` and `first + 1`. -/
def memberStatement (name : List Char) (number : Pattern) (first : Nat) : Pattern :=
  .all
    [ .literal (name ++ ['['] ++ name ++ ['[']), quoted first, .literal "] = ".toList, number
    , .literal "] = ".toList, quoted (first + 1), .literal [';'] ]

/-- One or more blanks. -/
def blanks : Pattern :=
  .some (.one CharClass.isBlank)

/-- The body of a closure that fills an enum: group 1 holds its statements, groups 2 and 3 the two
spellings of the first member, whose number is zero. -/
def closureStatements (name : List Char) : Pattern :=
  .all
    [ blanks
    , .group 1 (.all
        [ memberStatement name (.literal ['0']) 2
        , .many (.seq blanks (memberStatement name .digits 4))
        , .lineBreak ])
    , .literal ("\x7d)(".toList ++ name ++ " || (".toList ++ name ++ " = \x7b\x7d));".toList) ]

/-- A closure that makes an object and fills it with the given statements. -/
def closureText (name members : List Char) : List Char :=
  "var ".toList ++ name ++ " = ".toList ++ Marker.pure.toList ++
    "(function() \x7b\n    var ".toList ++ name ++ " = \x7b\x7d;\n    ".toList ++ members ++
    "    return ".toList ++ name ++ ";\n\x7d)();".toList

/-- Recasts an enum filled in a closure so that the closure makes the object itself. -/
def wrapClosureAt : Pattern.Rule := fun head =>
  let name := head.group 1
  if name != head.group 2 then
    none
  else
    match (closureStatements name).matchAt? head.stop with
    | none => none
    | some body =>
        if body.group 2 != body.group 3 then none
        else some (closureText name (body.group 1), body.stop)

/-- Recasts the enums filled in a closure. -/
def wrapClosure (text : List Char) : List Char :=
  closureHead.substitute wrapClosureAt text

end Enum
end Shakedown
