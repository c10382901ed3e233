/-!
# Texts and byte offsets

A text is a list of characters; places in it are counted in bytes of its UTF-8 form. An offset
is a boundary when it falls between two characters, and only boundaries cut a text in two.
-/

namespace Shakedown

/-- A half-open range of byte offsets. -/
structure Span where
  /-- Offset of the first byte inside the range. -/
  start : Nat
  /-- Offset of the first byte behind the range. -/
  stop : Nat
  deriving DecidableEq, Repr, Inhabited

namespace Span

/-- A range that holds at least one byte. -/
def isProper (span : Span) : Bool :=
  span.start < span.stop

/-- Whether `inner` lies inside `outer`, end points included. -/
def covers (outer inner : Span) : Bool :=
  outer.start ≤ inner.start && inner.stop ≤ outer.stop

/-- Whether the offset falls on a byte of the range. -/
def holds (span : Span) (offset : Nat) : Bool :=
  span.start ≤ offset && offset < span.stop

theorem isProper_iff {span : Span} : span.isProper ↔ span.start < span.stop := by
  simp [isProper]

theorem covers_iff {outer inner : Span} :
    outer.covers inner ↔ outer.start ≤ inner.start ∧ inner.stop ≤ outer.stop := by
  simp [covers]

theorem holds_iff {span : Span} {offset : Nat} :
    span.holds offset ↔ span.start ≤ offset ∧ offset < span.stop := by
  simp [holds]

theorem covers_trans {outer middle inner : Span} (outside : outer.covers middle)
    (inside : middle.covers inner) : outer.covers inner := by
  rw [covers_iff] at *
  omega

theorem eq_of_covers {first second : Span} (outside : first.covers second)
    (inside : second.covers first) : first = second := by
  obtain ⟨start, stop⟩ := first
  obtain ⟨start', stop'⟩ := second
  simp only [covers_iff, mk.injEq] at *
  omega

theorem holds_of_covers {outer inner : Span} (outside : outer.covers inner) {offset : Nat}
    (held : inner.holds offset) : outer.holds offset := by
  rw [covers_iff] at outside
  rw [holds_iff] at *
  omega

theorem holds_start {span : Span} (proper : span.isProper) : span.holds span.start :=
  holds_iff.2 ⟨Nat.le_refl _, isProper_iff.1 proper⟩

theorem isProper_of_holds {span : Span} {offset : Nat} (held : span.holds offset) :
    span.isProper := by
  rw [holds_iff] at held
  rw [isProper_iff]
  omega

end Span

namespace Text

/-- Number of bytes of the UTF-8 form. -/
def width : List Char → Nat
  | [] => 0
  | char :: rest => char.utf8Size + width rest

@[simp]
theorem width_nil : width [] = 0 := rfl

@[simp]
theorem width_cons (char : Char) (rest : List Char) :
    width (char :: rest) = char.utf8Size + width rest := rfl

@[simp]
theorem width_append (front back : List Char) :
    width (front ++ back) = width front + width back := by
  induction front with
  | nil => simp
  | cons char front ih => simp [ih, Nat.add_assoc]

/-- The text before and after a boundary; an offset that is no boundary splits nothing. -/
def splitAt? : List Char → Nat → Option (List Char × List Char)
  | text, 0 => some ([], text)
  | [], _ + 1 => none
  | char :: rest, offset + 1 =>
      if char.utf8Size ≤ offset + 1 then
        (splitAt? rest (offset + 1 - char.utf8Size)).map fun (front, back) => (char :: front, back)
      else
        none

/-- Splitting loses nothing and cuts at the offset asked for. -/
theorem eq_append_of_splitAt? {text : List Char} {offset : Nat} {front back : List Char}
    (split : splitAt? text offset = some (front, back)) :
    text = front ++ back ∧ width front = offset := by
  fun_induction splitAt? text offset generalizing front back with
  | case1 text => simp_all
  | case2 => simp at split
  | case3 char rest offset fits ih =>
      obtain ⟨⟨front', back'⟩, split', same⟩ := Option.map_eq_some_iff.1 split
      obtain ⟨rest_eq, width_eq⟩ := ih split'
      simp only [Prod.mk.injEq] at same
      obtain ⟨rfl, rfl⟩ := same
      exact ⟨by simp [rest_eq], by simp only [width_cons]; omega⟩
  | case4 => simp at split

/-- Every boundary splits the text. -/
theorem splitAt?_append (front back : List Char) :
    splitAt? (front ++ back) (width front) = some (front, back) := by
  induction front with
  | nil => simp [splitAt?]
  | cons char front ih =>
      have positive : 0 < char.utf8Size := char.utf8Size_pos
      obtain ⟨n, width_eq⟩ : ∃ n, char.utf8Size + width front = n + 1 :=
        ⟨char.utf8Size + width front - 1, by omega⟩
      have fits : char.utf8Size ≤ n + 1 := by omega
      have rest_eq : n + 1 - char.utf8Size = width front := by omega
      rw [List.cons_append, width_cons, width_eq, splitAt?]
      simp only [fits, if_true, rest_eq, ih, Option.map_some]

/-- The characters of a range, when both of its ends are boundaries in this order. -/
def slice? (text : List Char) (span : Span) : Option (List Char) :=
  if span.start ≤ span.stop then
    match splitAt? text span.start with
    | none => none
    | some (_, tail) => (splitAt? tail (span.stop - span.start)).map (·.1)
  else
    none

/-- A range names the characters between as many bytes as it begins behind and as it ends behind. -/
theorem eq_append_of_slice? {text part : List Char} {span : Span}
    (named : slice? text span = some part) :
    ∃ front back, text = front ++ (part ++ back) ∧ width front = span.start ∧
      span.start + width part = span.stop := by
  unfold slice? at named
  split at named
  · rename_i ordered
    cases split_eq : splitAt? text span.start with
    | none => simp [split_eq] at named
    | some halves =>
        obtain ⟨front, tail⟩ := halves
        simp only [split_eq, Option.map_eq_some_iff] at named
        obtain ⟨⟨part', back⟩, tail_split, rfl⟩ := named
        obtain ⟨rfl, front_width⟩ := eq_append_of_splitAt? split_eq
        obtain ⟨rfl, part_width⟩ := eq_append_of_splitAt? tail_split
        exact ⟨front, back, rfl, front_width, by simp only [part_width]; omega⟩
  · simp at named

/-- Every part of a text has a range that names it. -/
theorem slice?_append (front part back : List Char) :
    slice? (front ++ (part ++ back)) ⟨width front, width front + width part⟩ = some part := by
  have ordered : width front ≤ width front + width part := Nat.le_add_right _ _
  have length_eq : width front + width part - width front = width part := by omega
  simp only [slice?, ordered, if_true, splitAt?_append, length_eq, Option.map_some]

/-- The part of a text that a range names; a range that names no part reads as nothing. -/
def slice (text : String) (span : Span) : String :=
  String.ofList ((slice? text.toList span).getD [])

/-- A part that is not empty lies in the text, as many bytes from the front as its range says. -/
theorem eq_append_of_slice {text : String} {span : Span} {part : List Char}
    (named : (slice text span).toList = part) (filled : part ≠ []) :
    ∃ front back, text.toList = front ++ (part ++ back) ∧ width front = span.start := by
  rw [slice, String.toList_ofList] at named
  cases part_eq : slice? text.toList span with
  | none => exact absurd (by simpa [part_eq] using named.symm) filled
  | some part' =>
      obtain rfl : part' = part := by simpa [part_eq] using named
      obtain ⟨front, back, text_eq, front_width, -⟩ := eq_append_of_slice? part_eq
      exact ⟨front, back, text_eq, front_width⟩

theorem slice_whole (text : String) : slice text ⟨0, width text.toList⟩ = text := by
  have whole := slice?_append [] text.toList []
  simp only [List.nil_append, List.append_nil, width_nil, Nat.zero_add] at whole
  rw [slice, whole, Option.getD_some, String.ofList_toList]

/-- The characters before an offset; an offset that is no boundary has none. -/
def charsBefore (text : String) (offset : Nat) : List Char :=
  ((splitAt? text.toList offset).map (·.1)).getD []

/-- Whether `part` is the end of `text`. -/
def endsWith (text part : List Char) : Bool :=
  part.reverse.isPrefixOf text.reverse

/-- Whether `part` occurs somewhere in the text. -/
def occurs (part : List Char) : List Char → Bool
  | [] => part.isEmpty
  | char :: rest => part.isPrefixOf (char :: rest) || occurs part rest

/-- The text with `part` taken off its front as often as it stands there. -/
def dropRepeated (part : List Char) : (text : List Char) → List Char
  | [] => []
  | char :: rest =>
      if part.isPrefixOf (char :: rest) && !part.isEmpty then
        dropRepeated part (rest.drop (part.length - 1))
      else
        char :: rest
  termination_by text => text.length
  decreasing_by simp only [List.length_drop, List.length_cons]; omega

/-- The bytes of the UTF-8 form. -/
def bytes (text : String) : List UInt8 :=
  text.toUTF8.data.toList

end Text

end Shakedown
