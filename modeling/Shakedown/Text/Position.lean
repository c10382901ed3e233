import Shakedown.Text.Basic

/-!
# Lines and columns

Two ways of naming a place. Source maps count lines and columns from zero, columns in UTF-16
units; messages count both from one, columns in bytes. A line ends behind a line feed.
-/

namespace Shakedown

/-- Number of UTF-16 units that encode a character. -/
def utf16Width (char : Char) : Nat :=
  if char.toNat < 0x10000 then 1 else 2

theorem utf16Width_pos (char : Char) : 0 < utf16Width char := by
  unfold utf16Width
  split <;> decide

theorem utf16Width_le_utf8Size (char : Char) : utf16Width char ≤ char.utf8Size := by
  unfold utf16Width Char.utf8Size
  have size_eq : char.toNat = char.val.toNat := rfl
  simp only [UInt32.le_iff_toNat_le]
  grind

/-- A place in a text, as source maps name it. -/
structure Position where
  /-- Number of line feeds before the place. -/
  line : Nat
  /-- Number of UTF-16 units between the start of the line and the place. -/
  column : Nat
  deriving DecidableEq, Repr, Inhabited

namespace Position

/-- The place where every text begins. -/
def origin : Position := ⟨0, 0⟩

/-- The place behind a character that stands at `position`. -/
def step (position : Position) (char : Char) : Position :=
  if char = '\n' then ⟨position.line + 1, 0⟩
  else ⟨position.line, position.column + utf16Width char⟩

/-- The place behind a text that begins at `position`. -/
def advance (position : Position) (text : List Char) : Position :=
  text.foldl step position

@[simp]
theorem advance_nil (position : Position) : position.advance [] = position := rfl

@[simp]
theorem advance_cons (position : Position) (char : Char) (rest : List Char) :
    position.advance (char :: rest) = (position.step char).advance rest := rfl

@[simp]
theorem advance_append (position : Position) (front back : List Char) :
    position.advance (front ++ back) = (position.advance front).advance back := by
  simp [advance]

/-- The place of a byte offset in a text. -/
def ofOffset (text : String) (offset : Nat) : Position :=
  origin.advance (Text.charsBefore text offset)

theorem ofOffset_width {text : String} {front back : List Char}
    (split : text.toList = front ++ back) :
    ofOffset text (Text.width front) = origin.advance front := by
  rw [ofOffset, Text.charsBefore, split, Text.splitAt?_append]
  rfl

/-- Lines and columns count no more than bytes. -/
theorem advance_le (position : Position) (text : List Char) :
    (position.advance text).line ≤ position.line + Text.width text ∧
      (position.advance text).column ≤ position.column + Text.width text := by
  induction text generalizing position with
  | nil => simp
  | cons char rest ih =>
      obtain ⟨line_le, column_le⟩ := ih (position.step char)
      have units_le := utf16Width_le_utf8Size char
      have units_pos := utf16Width_pos char
      have step_le : (position.step char).line ≤ position.line + char.utf8Size ∧
          (position.step char).column ≤ position.column + char.utf8Size := by
        rw [step]
        split <;> constructor <;> simp only <;> omega
      simp only [advance_cons, Text.width_cons]
      omega

/-- Reading order: first by line, then by column. -/
def before (left right : Position) : Bool :=
  left.line < right.line || (left.line == right.line && left.column < right.column)

end Position

/-- A place in a text, as messages name it. -/
structure Place where
  /-- Line number, counted from one. -/
  line : Nat
  /-- Column number in bytes, counted from one. -/
  column : Nat
  deriving DecidableEq, Repr, Inhabited

namespace Place

/-- The mark of a message that names no place. -/
def unknown : Place := ⟨0, 0⟩

/-- The place behind a text. -/
def behind (text : List Char) : Place :=
  { line := text.count '\n' + 1
    column := Text.width (text.reverse.takeWhile (· != '\n')) + 1 }

/-- The place of a byte offset. An offset that cuts a character or lies past the end names the
place behind the whole text. -/
def ofOffset (text : String) (offset : Nat) : Place :=
  match Text.splitAt? text.toList offset with
  | some (before, _) => behind before
  | none => behind text.toList

end Place
end Shakedown
