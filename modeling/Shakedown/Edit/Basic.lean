import Shakedown.Text.Basic

/-!
# Edits against a fixed text

Passes do not change a text. They record edits whose offsets all refer to the text as it was
given, and the recorded list is rendered once. Several insertions at one place keep the order in
which they were recorded.
-/

namespace Shakedown

/-- One change to a text. -/
inductive Edit
  /-- Put new text at an offset. -/
  | insert (position : Nat) (text : String)
  /-- Leave a range out. -/
  | remove (span : Span)
  /-- Leave `removed` out and put the edited `body`, followed by `suffix`, at `target`. -/
  | move (body removed : Span) (target : Nat) (suffix : String)
  deriving DecidableEq, Repr, Inhabited

namespace Edit

/-- The range that an edit takes out of its place. -/
def gap? : Edit → Option Span
  | insert _ _ => none
  | remove span => some span
  | move _ removed _ _ => some removed

end Edit

/-- A list of recorded edits. -/
structure Revision where
  /-- The edits in the order in which they take effect at one place. -/
  edits : List Edit
  deriving DecidableEq, Repr, Inhabited

namespace Revision

/-- No edits. -/
def empty : Revision := ⟨[]⟩

/-- Record an edit behind all others. -/
def record (revision : Revision) (edit : Edit) : Revision :=
  ⟨revision.edits ++ [edit]⟩

/-- Record several edits behind all others. -/
def extend (revision : Revision) (edits : List Edit) : Revision :=
  ⟨revision.edits ++ edits⟩

/-- Insert text behind every edit recorded at the same place. -/
def insert (revision : Revision) (position : Nat) (text : String) : Revision :=
  revision.record (.insert position text)

/-- Insert text before every edit recorded at the same place. -/
def insertFirst (revision : Revision) (position : Nat) (text : String) : Revision :=
  ⟨.insert position text :: revision.edits⟩

/-- Leave a range out; an empty range records nothing. -/
def remove (revision : Revision) (span : Span) : Revision :=
  if span.isProper then revision.record (.remove span) else revision

/-- Leave a range out together with every insertion recorded on one of its bytes, the one at its
start included. -/
def cutOut (revision : Revision) (span : Span) : Revision :=
  if span.isProper then
    let kept := revision.edits.filter fun
      | .insert position _ => !span.holds position
      | _ => true
    ⟨kept ++ [.remove span]⟩
  else
    revision

/-- Move `body` out of `removed` to `target`, with `suffix` behind it. -/
def move (revision : Revision) (body removed : Span) (target : Nat) (suffix : String) : Revision :=
  revision.record (.move body removed target suffix)

/-- Number of recorded edits. -/
def size (revision : Revision) : Nat :=
  revision.edits.length

/-- Whether nothing is recorded. -/
def isEmpty (revision : Revision) : Bool :=
  revision.edits.isEmpty

/-- Whether the gap of a recorded edit covers the range. -/
def isGone (revision : Revision) (span : Span) : Bool :=
  revision.edits.any fun edit => edit.gap?.any (·.covers span)

end Revision
end Shakedown
