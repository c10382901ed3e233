import Shakedown.SourceMap.Segment
import Shakedown.SourceMap.Vlq

/-!
# The text of the mappings

Lines are separated by semicolons and the segments of a line by commas. A segment is one, four or
five numbers, each the difference to the value before: the generated column, which starts anew on
each line, then source, line and column of the origin, and its name.
-/

namespace Shakedown

/-- The values that the next segment is written relative to. -/
structure Running where
  /-- Generated column. -/
  column : Int
  /-- Index of the source. -/
  source : Int
  /-- Line of the origin. -/
  originLine : Int
  /-- Column of the origin. -/
  originColumn : Int
  /-- Index of the name. -/
  name : Int
  deriving DecidableEq, Repr, Inhabited

namespace Running

/-- The values before the first segment. -/
def start : Running := ⟨0, 0, 0, 0, 0⟩

/-- The values at the start of the next line. -/
def newLine (running : Running) : Running :=
  { running with column := 0 }

/-- The values behind a segment. -/
def step (running : Running) (segment : Segment) : Running :=
  let running := { running with column := (segment.generated.column : Int) }
  match segment.origin with
  | none => running
  | some origin =>
      { running with
        source := origin.source
        originLine := origin.position.line
        originColumn := origin.position.column
        name := match origin.name with
          | none => running.name
          | some name => name }

end Running

namespace Mappings

/-- The numbers that stand for a segment. -/
def fields (running : Running) (segment : Segment) : List Int :=
  (segment.generated.column - running.column) ::
    match segment.origin with
    | none => []
    | some origin =>
        [ origin.source - running.source
        , origin.position.line - running.originLine
        , origin.position.column - running.originColumn ] ++
          match origin.name with
          | none => []
          | some name => [name - running.name]

/-- The text of the segments on and behind `line`. A separator goes before every segment but the
first of its line. -/
def encodeFrom (line : Nat) (opensLine : Bool) (running : Running) : List Segment → List Char
  | [] => []
  | segment :: rest =>
      let skipped := segment.generated.line - line
      let running := if skipped = 0 then running else running.newLine
      let separators := List.replicate skipped ';'
      let comma := if opensLine || skipped != 0 then [] else [',']
      separators ++ comma ++ (fields running segment).flatMap Vlq.encode ++
        encodeFrom (line + skipped) false (running.step segment) rest

/-- The text of segments in the order of their lines. -/
def encode (segments : List Segment) : String :=
  String.ofList (encodeFrom 0 true Running.start segments)

/-- The parts of a text between the separators. -/
def splitAt (separator : Char) : List Char → List (List Char)
  | [] => [[]]
  | char :: rest =>
      match splitAt separator rest with
      | [] => [[char]]
      | part :: parts => if char = separator then [] :: part :: parts else (char :: part) :: parts

/-- A value that fits into 32 bits. -/
def word? (value : Int) : Option Nat :=
  if 0 ≤ value ∧ value < 4294967296 then some value.toNat else none

/-- The segment that a list of numbers stands for, with the values behind it. -/
def segment? (line : Nat) (running : Running) : List Int → Option (Segment × Running)
  | [column] => do
      let running := { running with column := running.column + column }
      let generated : Position := ⟨← word? line, ← word? running.column⟩
      return (⟨generated, none⟩, running)
  | [column, source, originLine, originColumn] => do
      let running :=
        { running with
          column := running.column + column
          source := running.source + source
          originLine := running.originLine + originLine
          originColumn := running.originColumn + originColumn }
      let generated : Position := ⟨← word? line, ← word? running.column⟩
      let position : Position := ⟨← word? running.originLine, ← word? running.originColumn⟩
      return (⟨generated, some ⟨← word? running.source, position, none⟩⟩, running)
  | [column, source, originLine, originColumn, name] => do
      let running : Running :=
        { column := running.column + column
          source := running.source + source
          originLine := running.originLine + originLine
          originColumn := running.originColumn + originColumn
          name := running.name + name }
      let generated : Position := ⟨← word? line, ← word? running.column⟩
      let position : Position := ⟨← word? running.originLine, ← word? running.originColumn⟩
      return (⟨generated, some ⟨← word? running.source, position, some (← word? running.name)⟩⟩,
        running)
  | _ => none

/-- The segments of one line, given as the texts between its commas. -/
def decodeGroups (line : Nat) (running : Running) :
    List (List Char) → Option (List Segment × Running)
  | [] => some ([], running)
  | group :: groups => do
      let (segment, running) ← segment? line running (← Vlq.decode group)
      let (segments, running) ← decodeGroups line running groups
      return (segment :: segments, running)

/-- The segments of the lines from `line` on. Empty groups stand for nothing. -/
def decodeLines (line : Nat) (running : Running) : List (List Char) → Option (List Segment)
  | [] => some []
  | text :: texts => do
      let groups := (splitAt ',' text).filter (!·.isEmpty)
      let (segments, running) ← decodeGroups line running.newLine groups
      return segments ++ (← decodeLines (line + 1) running texts)

/-- The segments that a text stands for; none when it is malformed. -/
def decode (text : String) : Option (List Segment) :=
  decodeLines 0 Running.start (splitAt ';' text.toList)

end Mappings
end Shakedown
