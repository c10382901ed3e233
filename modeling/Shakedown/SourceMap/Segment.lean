import Shakedown.Greatest
import Shakedown.Text.Position

/-!
# Segments of a source map

A segment ties a place of the generated text to a place of a source, or states that the generated
text from there on has no source. A place is governed by the closest segment before it on its line.
-/

namespace Shakedown

/-- Where generated text comes from. -/
structure Origin where
  /-- Index of the source. -/
  source : Nat
  /-- Place in the source. -/
  position : Position
  /-- Index of the name in the source, if one is given. -/
  name : Option Nat
  deriving DecidableEq, Repr, Inhabited

/-- One entry of a source map. -/
structure Segment where
  /-- Place in the generated text. -/
  generated : Position
  /-- Where that text comes from, if it comes from a source. -/
  origin : Option Origin
  deriving DecidableEq, Repr, Inhabited

namespace Segment

/-- The segment that governs a place: of those on its line and not behind it the one with the
greatest column, the last of equals. -/
def governing? (segments : List Segment) (place : Position) : Option Segment :=
  lastGreatest? (·.generated.column)
    (segments.filter fun segment =>
      segment.generated.line == place.line && segment.generated.column ≤ place.column)

/-- The origin of a place, as far to the right of the origin of the governing segment as the place
is of that segment. -/
def lookup (segments : List Segment) (place : Position) : Option Origin :=
  match governing? segments place with
  | none => none
  | some segment =>
      segment.origin.map fun origin =>
        let offset := place.column - segment.generated.column
        { origin with
          position := ⟨origin.position.line, origin.position.column + offset⟩ }

end Segment
end Shakedown
