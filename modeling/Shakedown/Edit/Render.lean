import Shakedown.Edit.Basic
import Shakedown.Edit.Chunk
import Shakedown.Greatest

/-!
# Rendering edits

The given text is read from left to right. At each place the insertions come first, then the
longest gap that begins there is skipped, and otherwise text is copied up to the next place where
something happens. So an insertion at the start of a gap is kept and one strictly inside a gap is
dropped. A moved body is rendered, edits inside it included, where it arrives; insertions at the
start of a body travel with it.

A move is never rendered inside itself: `active` lists those being rendered, each nested rendering
adds one that is not yet listed, and so the nesting is no deeper than there are moves.
-/

namespace Shakedown

/-- A move of a revision. -/
structure Move where
  /-- Its rank among the moves, which tells it from its equals. -/
  index : Nat
  /-- The range that is rendered again. -/
  body : Span
  /-- The range left out of its place. -/
  removed : Span
  /-- Where the body arrives. -/
  target : Nat
  /-- New text behind the body. -/
  suffix : String
  deriving DecidableEq, Repr, Inhabited

/-- Something that appears at a place. -/
inductive Arrival
  /-- New text. -/
  | text (text : String)
  /-- The body of a move. -/
  | moved (move : Move)
  deriving DecidableEq, Repr

/-- A range left out, with the move that takes it elsewhere, if any. -/
structure Gap where
  /-- The range. -/
  span : Span
  /-- The move that the range belongs to. -/
  move : Option Move
  deriving DecidableEq, Repr

/-- The edits of a revision, sorted into what appears and what is left out. -/
structure Layout where
  /-- What appears, with its place, in order. -/
  arrivals : List (Nat × Arrival)
  /-- What is left out, in order. -/
  gaps : List Gap
  /-- Number of moves. -/
  moves : Nat
  deriving DecidableEq, Repr

/-- The text and chunks of an edited text. -/
structure Rendering where
  /-- The merged chunks. -/
  chunks : List Chunk
  /-- The text that they stand for. -/
  text : String
  deriving DecidableEq, Repr, Inhabited

namespace Layout

/-- The layout before any edit. -/
def empty : Layout := ⟨[], [], 0⟩

/-- The layout with one more edit. -/
def add (layout : Layout) : Edit → Layout
  | .insert position text =>
      { layout with arrivals := layout.arrivals ++ [(position, .text text)] }
  | .remove span => { layout with gaps := layout.gaps ++ [⟨span, none⟩] }
  | .move body removed target suffix =>
      let move : Move := { index := layout.moves, body, removed, target, suffix }
      { arrivals := layout.arrivals ++ [(target, .moved move)]
        gaps := layout.gaps ++ [⟨removed, some move⟩]
        moves := layout.moves + 1 }

/-- The layout of a list of edits. -/
def ofEdits (edits : List Edit) : Layout :=
  edits.foldl add empty

/-- What appears at a place, in order. -/
def arrivalsAt (layout : Layout) (position : Nat) : List Arrival :=
  (layout.arrivals.filter (·.1 == position)).map (·.2)

/-- Whether a gap is in force at its start: it takes bytes away, and is not part of a move that is
being rendered. -/
def inForce (active : List Nat) (gap : Gap) : Bool :=
  gap.span.isProper && !gap.move.any (active.contains ·.index)

/-- The longest gap in force that begins at a place; of equals the last. -/
def gapAt? (layout : Layout) (active : List Nat) (position : Nat) : Option Gap :=
  lastGreatest? (·.span.stop)
    (layout.gaps.filter fun gap => gap.span.start == position && inForce active gap)

/-- The next place behind `position` and not behind `stop` where something happens. -/
def nextPlace (layout : Layout) (position stop : Nat) : Nat :=
  ((layout.arrivals.map (·.1) ++ layout.gaps.map (·.span.start)).filter (position < ·)).foldl
    min stop

/-- Whether the insertions at the start of a gap travel with the body that it takes away. -/
def travels (gap : Option Gap) (position : Nat) : Bool :=
  gap.any fun gap => gap.move.any (·.body.start == position)

/-- What appears at a place, given how the body of a move is rendered. -/
def emit (layout : Layout) (renderBody : Move → List Chunk) (active : List Nat)
    (position : Nat) : List Chunk :=
  (layout.arrivalsAt position).flatMap fun
    | .text text => [.synthetic text]
    | .moved move =>
        if active.contains move.index || move.body.holds position then
          []
        else
          renderBody move ++ [.synthetic move.suffix]

/-- The chunks from `position` to `stop`. Each round moves at least one byte ahead, so as many
rounds as there are bytes left, and one more, are enough. -/
def walk (layout : Layout) (emit : Nat → List Chunk) (active : List Nat) (includeStop : Bool)
    (stop : Nat) : (rounds : Nat) → (position : Nat) → List Chunk
  | 0, _ => []
  | rounds + 1, position =>
      let gap := layout.gapAt? active position
      let here :=
        if (position < stop || includeStop) && !travels gap position then emit position else []
      if stop ≤ position then
        here
      else
        match gap with
        | some gap =>
            let next := min gap.span.stop stop
            if stop ≤ next && !includeStop then here
            else here ++ walk layout emit active includeStop stop rounds next
        | none =>
            let next := layout.nextPlace position stop
            here ++ .copied ⟨position, next⟩ ::
              walk layout emit active includeStop stop rounds next

/-- The chunks of a range. What is inserted at its end belongs to it only on demand. -/
def chunksOf (layout : Layout) : (depth : Nat) → (active : List Nat) → Span → Bool → List Chunk
  | 0, _, _, _ => []
  | depth + 1, active, span, includeStop =>
      let renderBody (move : Move) : List Chunk :=
        chunksOf layout depth (move.index :: active) move.body false
      layout.walk (layout.emit renderBody active) active includeStop span.stop
        (span.stop - span.start + 1) span.start

end Layout

namespace Revision

/-- The chunks of the edited text, merged. -/
def chunks (revision : Revision) (source : String) : List Chunk :=
  let layout := Layout.ofEdits revision.edits
  Chunk.merge
    (layout.chunksOf (layout.moves + 1) [] ⟨0, Text.width source.toList⟩ true)

/-- The edited text with its chunks. -/
def render (revision : Revision) (source : String) : Rendering :=
  let chunks := revision.chunks source
  { chunks, text := Chunk.assemble source chunks }

end Revision
end Shakedown
