import Shakedown.Edit.Render
import Shakedown.Proofs.Text.Boundary

/-!
# What an edit list means

The meaning of an edit list is said without rendering it: the text is read from left to right,
what is put at an offset comes before the character there, and a character stays unless a gap
covers it. The body of a move is read in the same way where it arrives, with the removals inside it
and the insertions that travel with it.
-/

namespace Shakedown

namespace Span

/-- Whether no byte belongs to both ranges. -/
def isApart (first second : Span) : Bool :=
  first.stop ≤ second.start || second.stop ≤ first.start

/-- Whether the offset falls strictly between the ends of the range. -/
def surrounds (span : Span) (offset : Nat) : Bool :=
  span.start < offset && offset < span.stop

theorem isApart_iff {first second : Span} :
    first.isApart second ↔ first.stop ≤ second.start ∨ second.stop ≤ first.start := by
  simp [isApart]

theorem surrounds_iff {span : Span} {offset : Nat} :
    span.surrounds offset ↔ span.start < offset ∧ offset < span.stop := by
  simp [surrounds]

theorem holds_of_surrounds {span : Span} {offset : Nat} (surrounded : span.surrounds offset) :
    span.holds offset := by
  rw [surrounds_iff] at surrounded
  rw [holds_iff]
  omega

theorem isApart_comm (first second : Span) : first.isApart second = second.isApart first := by
  rw [isApart, isApart, Bool.or_comm]

theorem not_isApart_of_holds {first second : Span} {offset : Nat} (held : first.holds offset)
    (also_held : second.holds offset) : ¬first.isApart second := by
  rw [holds_iff] at *
  rw [isApart_iff]
  omega

end Span

namespace Edit

/-- The range that a move leaves out. -/
def removed? : Edit → Option Span
  | move _ removed _ _ => some removed
  | _ => none

/-- The range of a removal that leaves something out. -/
def removal? : Edit → Option Span
  | remove span => if span.isProper then some span else none
  | _ => none

/-- Whether the insertions at an offset travel with the body of a move. -/
def takesAlong (offset : Nat) : Edit → Bool
  | move body removed _ _ => removed.start == offset && body.start == offset
  | _ => false

/-- All offsets that an edit names. -/
def offsets : Edit → List Nat
  | insert position _ => [position]
  | remove span => [span.start, span.stop]
  | move body removed target _ => [body.start, body.stop, removed.start, removed.stop, target]

end Edit

namespace Meaning

/-! ## The meaning -/

/-- The ranges that edits take out of their places. -/
def gaps (edits : List Edit) : List Span :=
  (edits.filterMap Edit.gap?).filter Span.isProper

/-- The removals inside the body of a move. -/
def removals (edits : List Edit) (body : Span) : List Span :=
  (edits.filterMap Edit.removal?).filter body.covers

/-- The new text recorded for an offset, in the order in which it was recorded. -/
def inserted (edits : List Edit) (offset : Nat) : List Char :=
  edits.flatMap fun
    | .insert position text => if position = offset then text.toList else []
    | _ => []

/-- A text that begins at an offset, read from left to right. -/
def read (gaps : List Span) (put : Nat → List Char) : (offset : Nat) → List Char → List Char
  | _, [] => []
  | offset, char :: rest =>
      put offset ++ (if gaps.any (·.holds offset) then [] else [char]) ++
        read gaps put (offset + char.utf8Size) rest

/-- What is put into a body: the insertions from its start on, unless a removal surrounds them. -/
def putInside (edits : List Edit) (body : Span) (offset : Nat) : List Char :=
  if (removals edits body).any (·.surrounds offset) then [] else inserted edits offset

/-- The body of a move with the edits inside it. -/
def bodyText (source : List Char) (edits : List Edit) (body : Span) : List Char :=
  read (removals edits body) (putInside edits body) body.start
    ((Text.slice? source body).getD [])

/-- Whether text inserted at an offset stays in place: no gap surrounds the offset, and it does not
begin a gap together with the body that moves out of it. -/
def stays (edits : List Edit) (offset : Nat) : Bool :=
  !(gaps edits).any (·.surrounds offset) && !edits.any (Edit.takesAlong offset)

/-- What an edit puts at an offset: its text if that stays in place, or the body that arrives there
with the suffix behind it. -/
def contribution (source : List Char) (edits : List Edit) (offset : Nat) : Edit → List Char
  | .insert position text => if position = offset && stays edits offset then text.toList else []
  | .remove _ => []
  | .move body _ target suffix =>
      if target = offset then bodyText source edits body ++ suffix.toList else []

/-- What all edits put at an offset, in the order in which they were recorded. -/
def put (source : List Char) (edits : List Edit) (offset : Nat) : List Char :=
  edits.flatMap (contribution source edits offset)

/-- The text that the edits make of `source`. -/
def text (source : List Char) (edits : List Edit) : List Char :=
  read (gaps edits) (put source edits) 0 source ++ put source edits (Text.width source)

theorem put_eq_nil {source : List Char} {edits : List Edit} {offset : Nat}
    (leaves : stays edits offset = false)
    (elsewhere : ∀ body removed target suffix, .move body removed target suffix ∈ edits →
      target ≠ offset) :
    put source edits offset = [] := by
  rw [put, List.flatMap_eq_nil_iff]
  intro edit member
  cases edit with
  | insert position text => simp [contribution, leaves]
  | remove span => rfl
  | move body removed target suffix =>
      simp [contribution, elsewhere body removed target suffix member]

/-! ## Edit lists that have a meaning -/

/-- The edits get along with each other: ranges nest or keep apart, moves keep apart, removals stay
out of moves or inside their bodies, and nothing arrives in a gap. -/
structure Tidy (source : List Char) (edits : List Edit) : Prop where
  /-- Every offset is a boundary of the text. -/
  boundaries : ∀ edit ∈ edits, ∀ offset ∈ edit.offsets, Text.IsBoundary source offset
  /-- Gaps are apart or one inside the other. -/
  nested : ∀ first ∈ gaps edits, ∀ second ∈ gaps edits,
    first.isApart second ∨ first.covers second ∨ second.covers first
  /-- The ranges that moves leave out are apart. -/
  movesApart : (edits.filterMap Edit.removed?).Pairwise fun first second => first.isApart second
  /-- A move leaves out its body, and there is something in it. -/
  bodies : ∀ body removed target suffix, .move body removed target suffix ∈ edits →
    body.isProper ∧ removed.covers body
  /-- A removal is apart from all moves or inside the body of one without being all it leaves
  out. -/
  removalsApart : ∀ span ∈ edits.filterMap Edit.removal?,
    (∀ removed ∈ edits.filterMap Edit.removed?, span.isApart removed) ∨
      ∃ body removed target suffix, .move body removed target suffix ∈ edits ∧
        body.covers span ∧ span ≠ removed
  /-- No body arrives in a gap. -/
  targets : ∀ body removed target suffix, .move body removed target suffix ∈ edits →
    ∀ gap ∈ gaps edits, gap.holds target = false

/-! ## Reading in pieces -/

theorem read_append (gaps : List Span) (put : Nat → List Char) (offset : Nat)
    (front back : List Char) :
    read gaps put offset (front ++ back) =
      read gaps put offset front ++ read gaps put (offset + Text.width front) back := by
  induction front generalizing offset with
  | nil => simp [read]
  | cons char front ih => simp [read, ih, Nat.add_assoc]

/-- Where every offset is in a gap and nothing is put, nothing is read. -/
theorem read_eq_nil {gaps : List Span} {put : Nat → List Char} {offset : Nat} {text : List Char}
    (covered : ∀ inner, offset ≤ inner → inner < offset + Text.width text →
      gaps.any (·.holds inner) = true ∧ put inner = []) :
    read gaps put offset text = [] := by
  induction text generalizing offset with
  | nil => rfl
  | cons char rest ih =>
      have wide := char.utf8Size_pos
      rw [Text.width_cons] at covered
      obtain ⟨held, put_nil⟩ := covered offset (Nat.le_refl _) (by omega)
      rw [read, ih fun inner after before => covered inner (by omega) (by omega)]
      simp [held, put_nil]

/-- Where no offset is in a gap and nothing is put, the text itself is read. -/
theorem read_eq_self {gaps : List Span} {put : Nat → List Char} {offset : Nat} {text : List Char}
    (free : ∀ inner, offset ≤ inner → inner < offset + Text.width text →
      gaps.any (·.holds inner) = false ∧ put inner = []) :
    read gaps put offset text = text := by
  induction text generalizing offset with
  | nil => rfl
  | cons char rest ih =>
      have wide := char.utf8Size_pos
      rw [Text.width_cons] at free
      obtain ⟨held, put_nil⟩ := free offset (Nat.le_refl _) (by omega)
      rw [read, ih fun inner after before => free inner (by omega) (by omega)]
      simp [held, put_nil]

/-- A gap is read as what is put at its start. -/
theorem read_gap {gaps : List Span} {put : Nat → List Char} {offset : Nat} {text : List Char}
    (filled : text ≠ [])
    (covered : ∀ inner, offset ≤ inner → inner < offset + Text.width text →
      gaps.any (·.holds inner) = true)
    (still : ∀ inner, offset < inner → inner < offset + Text.width text → put inner = []) :
    read gaps put offset text = put offset := by
  cases text with
  | nil => exact absurd rfl filled
  | cons char rest =>
      have wide := char.utf8Size_pos
      rw [Text.width_cons] at covered still
      have held := covered offset (Nat.le_refl _) (by omega)
      rw [read, read_eq_nil fun inner after before =>
        ⟨covered inner (by omega) (by omega), still inner (by omega) (by omega)⟩]
      simp [held]

/-- A stretch without gaps is read as what is put at its start and then the stretch itself. -/
theorem read_stretch {gaps : List Span} {put : Nat → List Char} {offset : Nat} {text : List Char}
    (filled : text ≠ [])
    (free : ∀ inner, offset ≤ inner → inner < offset + Text.width text →
      gaps.any (·.holds inner) = false)
    (still : ∀ inner, offset < inner → inner < offset + Text.width text → put inner = []) :
    read gaps put offset text = put offset ++ text := by
  cases text with
  | nil => exact absurd rfl filled
  | cons char rest =>
      have wide := char.utf8Size_pos
      rw [Text.width_cons] at free still
      have held := free offset (Nat.le_refl _) (by omega)
      rw [read, read_eq_self fun inner after before =>
        ⟨free inner (by omega) (by omega), still inner (by omega) (by omega)⟩]
      simp [held]

end Meaning
end Shakedown
