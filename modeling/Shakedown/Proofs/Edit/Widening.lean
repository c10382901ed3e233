import Mathlib.Data.List.DropRight
import Shakedown.Edit.StatementGap

/-!
# Widening a range

A gap is found byte by byte, so what it takes can be said of every range of bytes that begins and
ends with ink, one that begins or ends inside a character included. In front of its range a gap
takes all blanks; behind it the rest of the line, if the range stands alone there, or nothing. Of
two ranges in a row the gap of the first may take a line break and that of the second the blanks
behind it, and since no line break ends with a blank, the gaps follow each other as well.
-/

namespace Shakedown
namespace StatementGap

/-- A byte other than a space, a tab, a carriage return and a line feed. -/
def leavesInk (byte : UInt8) : Bool :=
  !isIndent byte && byte != 13 && byte != 10

/-- A range that begins and ends on bytes that leave ink. -/
structure Inked (bytes : List UInt8) (span : Span) : Prop where
  /-- The first byte of the range leaves ink. -/
  begins : bytes[span.start]?.any leavesInk
  /-- There is a byte before the end of the range, -/
  stop_pos : 0 < span.stop
  /-- and it leaves ink. -/
  ends : bytes[span.stop - 1]?.any leavesInk

/-- A line feed, with or without a carriage return before it. -/
def IsLineBreak (bytes : List UInt8) : Prop :=
  bytes = [10] ∨ bytes = [13, 10]

/-- Blanks and one line break behind them. -/
def EndsLine (bytes : List UInt8) : Prop :=
  ∃ blanks ending, bytes = blanks ++ ending ∧ blanks.all isIndent ∧ IsLineBreak ending

/-- What stands before the offset is nothing or ends with a line feed. -/
def opensLine (bytes : List UInt8) (offset : Nat) : Bool :=
  (bytes.take offset).getLast?.all (· == 10)

/-- What a gap adds to its range, and what it leaves. -/
structure IsGap (bytes : List UInt8) (gap span : Span) : Prop where
  /-- The gap lies in the text, so a word that holds the length of the text holds its ends. -/
  inside : gap.stop ≤ bytes.length
  /-- Nothing of the range is left. -/
  covers : gap.covers span
  /-- In front of the range the gap adds blanks only, -/
  before : (bytes.extract gap.start span.start).all isIndent
  /-- and no blank is left there. -/
  ahead : (bytes.take gap.start).getLast?.any isIndent = false
  /-- Behind the range it adds nothing, or blanks and one line break. -/
  behind : gap.stop = span.stop ∨ EndsLine (bytes.extract span.stop gap.stop)
  /-- It adds something behind a range that stands alone on its line, and behind no other. -/
  alone : gap.stop ≠ span.stop ↔
    opensLine bytes gap.start ∧ ∃ front, front <+: bytes.drop span.stop ∧ EndsLine front

variable {bytes : List UInt8} {span : Span}

theorem lt_length_of_any {offset : Nat} {test : UInt8 → Bool} (passes : bytes[offset]?.any test) :
    offset < bytes.length := by
  obtain ⟨byte, found, -⟩ := (Option.any_eq_true ..).1 passes
  exact (List.getElem?_eq_some_iff.1 found).1

theorem EndsLine.length_pos {front : List UInt8} (ends : EndsLine front) : 0 < front.length := by
  obtain ⟨blanks, ending, rfl, -, rfl | rfl⟩ := ends <;> simp

/-! ## The ends of a gap -/

/-- The rest of a line is found exactly where there is one. -/
theorem blankLineEnd?_eq_some_iff {rest : List UInt8} {length : Nat} :
    blankLineEnd? rest = some length ↔
      ∃ front, front <+: rest ∧ EndsLine front ∧ front.length = length := by
  constructor
  · intro found
    have blanks_all : (rest.takeWhile isIndent).all isIndent := List.all_takeWhile
    have parts : rest.takeWhile isIndent ++ rest.dropWhile isIndent = rest :=
      List.takeWhile_append_dropWhile
    simp only [blankLineEnd?] at found
    split at found
    · rename_i more drop_eq
      refine ⟨_, ⟨more, ?_⟩, ⟨_, [13, 10], rfl, blanks_all, .inr rfl⟩, ?_⟩
      · rw [drop_eq] at parts
        simpa using parts
      · simpa using found
    · rename_i more drop_eq
      refine ⟨_, ⟨more, ?_⟩, ⟨_, [10], rfl, blanks_all, .inl rfl⟩, ?_⟩
      · rw [drop_eq] at parts
        simpa using parts
      · simpa using found
    · simp at found
  · rintro ⟨front, ⟨more, rfl⟩, ⟨blanks, ending, rfl, blank, line_break⟩, rfl⟩
    have passes := List.all_eq_true.1 blank
    rw [List.append_assoc, blankLineEnd?, List.takeWhile_append_of_pos passes,
      List.dropWhile_append_of_pos passes]
    obtain rfl | rfl := line_break <;> simp [isIndent]

theorem start_widen (bytes : List UInt8) (span : Span) : (widen bytes span).start =
    span.start - ((bytes.take span.start).reverse.takeWhile isIndent).length := by
  simp only [widen]
  split
  · rfl
  · split <;> rfl

theorem stop_widen (bytes : List UInt8) (span : Span) : (widen bytes span).stop =
    min span.stop bytes.length + if opensLine bytes (widen bytes span).start then
      (blankLineEnd? (bytes.drop (min span.stop bytes.length))).getD 0 else 0 := by
  rw [start_widen, opensLine, ← List.head?_reverse]
  simp only [widen]
  split
  · rename_i before_eq
    simp [before_eq]
  · rename_i last more before_eq
    by_cases feed : last = 10 <;> simp [before_eq, feed]

theorem start_widen_le (bytes : List UInt8) (span : Span) :
    (widen bytes span).start ≤ span.start := by
  rw [start_widen]
  exact Nat.sub_le _ _

/-- In front of a range its gap takes all blanks. -/
theorem exists_start_widen (within : span.start ≤ bytes.length) :
    ∃ kept blanks rest, bytes = kept ++ (blanks ++ rest) ∧
      (widen bytes span).start = kept.length ∧ span.start = kept.length + blanks.length ∧
      blanks.all isIndent ∧ kept.getLast?.any isIndent = false := by
  have front_eq : (bytes.take span.start).rdropWhile isIndent ++
      (bytes.take span.start).rtakeWhile isIndent = bytes.take span.start :=
    List.rdropWhile_append_rtakeWhile ..
  have lengths := congrArg List.length front_eq
  rw [List.length_append, List.length_take_of_le within] at lengths
  refine ⟨_, _, bytes.drop span.start, ?_, ?_, lengths.symm, ?_, ?_⟩
  · rw [← List.append_assoc, front_eq, List.take_append_drop]
  · rw [List.rtakeWhile, List.length_reverse] at lengths
    rw [start_widen]
    omega
  · exact List.all_eq_true.2 fun byte member => List.mem_rtakeWhile_imp member
  · rw [Option.any_eq_false]
    intro byte last
    obtain ⟨filled, rfl⟩ := List.mem_getLast?_eq_getLast last
    simpa using List.rdropWhile_last_not isIndent (bytes.take span.start) filled

theorem before_widen (within : span.start ≤ bytes.length) :
    (bytes.extract (widen bytes span).start span.start).all isIndent ∧
      (bytes.take (widen bytes span).start).getLast?.any isIndent = false := by
  obtain ⟨kept, blanks, rest, rfl, start_eq, length_eq, blank, unblank⟩ :=
    exists_start_widen within
  rw [start_eq, length_eq, List.extract_eq_take_drop, List.drop_left, Nat.add_sub_cancel_left,
    List.take_left, List.take_left]
  exact ⟨blank, unblank⟩

/-- Where a gap ends: where its range does, or behind the line on which the range stands alone. -/
theorem stop_widen_cases (within : span.stop ≤ bytes.length) :
    ((widen bytes span).stop = span.stop ∧ ¬(opensLine bytes (widen bytes span).start ∧
        ∃ front, front <+: bytes.drop span.stop ∧ EndsLine front)) ∨
      opensLine bytes (widen bytes span).start ∧ ∃ front, front <+: bytes.drop span.stop ∧
        EndsLine front ∧ (widen bytes span).stop = span.stop + front.length := by
  have stop_eq := stop_widen bytes span
  rw [Nat.min_eq_left within] at stop_eq
  cases opens : opensLine bytes (widen bytes span).start with
  | false => exact .inl ⟨by simpa [opens] using stop_eq, by simp⟩
  | true =>
      cases found : blankLineEnd? (bytes.drop span.stop) with
      | none =>
          refine .inl ⟨by simpa [opens, found] using stop_eq, ?_⟩
          rintro ⟨-, front, left, ends⟩
          rw [blankLineEnd?_eq_some_iff.2 ⟨front, left, ends, rfl⟩] at found
          simp at found
      | some length =>
          obtain ⟨front, left, ends, rfl⟩ := blankLineEnd?_eq_some_iff.1 found
          exact .inr ⟨rfl, front, left, ends, by simpa [opens, found] using stop_eq⟩

/-- A range that is widened has a gap around it. -/
theorem isGap_widen (start_within : span.start ≤ bytes.length)
    (stop_within : span.stop ≤ bytes.length) : IsGap bytes (widen bytes span) span := by
  have start_le := start_widen_le bytes span
  obtain ⟨before, ahead⟩ := before_widen start_within
  obtain ⟨stop_eq, shared⟩ | ⟨opens, front, left, ends, stop_eq⟩ := stop_widen_cases stop_within
  · exact
      { inside := stop_eq ▸ stop_within
        covers := Span.covers_iff.2 ⟨start_le, Nat.le_of_eq stop_eq.symm⟩
        before := before
        ahead := ahead
        behind := .inl stop_eq
        alone := ⟨fun longer => absurd stop_eq longer, fun alone => absurd alone shared⟩ }
  · have front_pos := ends.length_pos
    have front_le := left.length_le
    rw [List.length_drop] at front_le
    have front_eq : bytes.extract span.stop (widen bytes span).stop = front := by
      rw [stop_eq, List.extract_eq_take_drop, Nat.add_sub_cancel_left]
      exact (List.prefix_iff_eq_take.1 left).symm
    exact
      { inside := by omega
        covers := Span.covers_iff.2 ⟨start_le, by omega⟩
        before := before
        ahead := ahead
        behind := .inr (front_eq ▸ ends)
        alone := ⟨fun _ => ⟨opens, front, left, ends⟩, fun _ => by omega⟩ }

/-! ## Gaps in a row -/

theorem mem_extract {place start stop : Nat} {byte : UInt8} (found : bytes[place]? = some byte)
    (start_le : start ≤ place) (lt_stop : place < stop) : byte ∈ bytes.extract start stop := by
  refine List.mem_of_getElem? (i := place - start) ?_
  rw [List.extract_eq_take_drop, List.getElem?_take_of_lt (by omega), List.getElem?_drop,
    Nat.add_sub_cancel' start_le, found]

theorem EndsLine.leavesInk_eq_false {front : List UInt8} (ends : EndsLine front) {byte : UInt8}
    (member : byte ∈ front) : leavesInk byte = false := by
  obtain ⟨blanks, ending, rfl, blank, line_break⟩ := ends
  obtain among | among := List.mem_append.1 member
  · simp [leavesInk, List.all_eq_true.1 blank byte among]
  · obtain rfl | rfl := line_break <;> simp at among
    · simp [leavesInk, among]
    · obtain rfl | rfl := among <;> decide

theorem EndsLine.getLast? {front : List UInt8} (ends : EndsLine front) :
    front.getLast? = some 10 := by
  obtain ⟨blanks, ending, rfl, -, rfl | rfl⟩ := ends <;> simp

theorem isIndent_of_leavesInk {byte : UInt8} (ink : leavesInk byte) : isIndent byte = false := by
  simp only [leavesInk, Bool.and_eq_true, Bool.not_eq_true'] at ink
  exact ink.1.1

namespace IsGap

variable {gap : Span} {place : Nat} {byte : UInt8}

/-- What is no blank and stands before a range stands before its gap. -/
theorem lt_start (is_gap : IsGap bytes gap span) (found : bytes[place]? = some byte)
    (solid : isIndent byte = false) (lt_start : place < span.start) : place < gap.start := by
  refine Nat.lt_of_not_le fun reached => ?_
  have blank := List.all_eq_true.1 is_gap.before byte (mem_extract found reached lt_start)
  exact Bool.false_ne_true (solid.symm.trans blank)

/-- What leaves ink and stands behind a range stands behind its gap. -/
theorem stop_le (is_gap : IsGap bytes gap span) (found : bytes[place]? = some byte)
    (ink : leavesInk byte) (stop_le : span.stop ≤ place) : gap.stop ≤ place := by
  obtain same | ends := is_gap.behind
  · rwa [same]
  · refine Nat.le_of_not_lt fun reached => ?_
    have inkless := ends.leavesInk_eq_false (mem_extract found stop_le reached)
    exact Bool.false_ne_true (inkless.symm.trans ink)

/-- A gap that goes beyond its range ends with a line feed. -/
theorem line_feed (is_gap : IsGap bytes gap span) (longer : gap.stop ≠ span.stop) :
    bytes[gap.stop - 1]? = some 10 := by
  have ends := is_gap.behind.resolve_left longer
  have feed := ends.getLast?
  have filled := ends.length_pos
  have within := is_gap.inside
  rw [List.extract_eq_take_drop] at feed filled
  have length_eq : ((bytes.drop span.stop).take (gap.stop - span.stop)).length =
      gap.stop - span.stop := by
    rw [List.length_take_of_le]
    rw [List.length_drop]
    omega
  rw [length_eq] at filled
  rw [List.getLast?_eq_getElem?, length_eq, List.getElem?_take_of_lt (by omega),
    List.getElem?_drop] at feed
  have place_eq : span.stop + (gap.stop - span.stop - 1) = gap.stop - 1 := by omega
  rwa [place_eq] at feed

end IsGap

/-- The gaps of two ranges in a row: the last byte of the first gap is ink or a line feed, so the
blanks before the second range begin behind it. -/
theorem stop_le_start {first second gap later : Span} (gap_first : IsGap bytes gap first)
    (gap_second : IsGap bytes later second) (inked : Inked bytes first)
    (inked_second : Inked bytes second) (ordered : first.stop ≤ second.start) :
    gap.stop ≤ later.start := by
  obtain ⟨last, last_found, last_ink⟩ := (Option.any_eq_true ..).1 inked.ends
  obtain ⟨next, next_found, next_ink⟩ := (Option.any_eq_true ..).1 inked_second.begins
  have stop_pos := inked.stop_pos
  have le_stop := (Span.covers_iff.1 gap_first.covers).2
  by_cases same : gap.stop = first.stop
  · have := gap_second.lt_start last_found (isIndent_of_leavesInk last_ink) (by omega)
    omega
  · have stop_le := gap_first.stop_le next_found next_ink ordered
    have := gap_second.lt_start (gap_first.line_feed same) (by decide) (by omega)
    omega

variable {text : String}

theorem Inked.isGap (inked : Inked (Text.bytes text) span) :
    IsGap (Text.bytes text) (statementGap text span) span := by
  have start_lt := lt_length_of_any inked.begins
  have last_lt := lt_length_of_any inked.ends
  have stop_pos := inked.stop_pos
  exact isGap_widen (by omega) (by omega)

/-- A gap takes its range with blanks and at most one line break around it, and the gaps of two
ranges in a row keep apart. -/
theorem gaps_keep_order {first second : Span} (inked : Inked (Text.bytes text) first)
    (inked_second : Inked (Text.bytes text) second) (ordered : first.stop ≤ second.start) :
    IsGap (Text.bytes text) (statementGap text first) first ∧
      IsGap (Text.bytes text) (statementGap text second) second ∧
      (statementGap text first).stop ≤ (statementGap text second).start :=
  ⟨inked.isGap, inked_second.isGap,
    stop_le_start inked.isGap inked_second.isGap inked inked_second ordered⟩

/-- Three statements, of which the first one has blanks and a line break behind it and the other
two share a line. -/
def sharedLine : String :=
  "\x7b\n  ä = 1; \t\r\n\tb(); c();\n\x7d"

/-- The first gap ends with the line break, where the second one begins with the tab; the space
between the other two goes with the later one. -/
theorem gaps_keep_order_sharedLine :
    (Inked (Text.bytes sharedLine) ⟨4, 11⟩ ∧ Inked (Text.bytes sharedLine) ⟨16, 20⟩ ∧
      Inked (Text.bytes sharedLine) ⟨21, 25⟩) ∧
    (statementGap sharedLine ⟨4, 11⟩ = ⟨2, 15⟩ ∧ statementGap sharedLine ⟨16, 20⟩ = ⟨15, 20⟩ ∧
      statementGap sharedLine ⟨21, 25⟩ = ⟨20, 25⟩) ∧
    (IsGap (Text.bytes sharedLine) ⟨2, 15⟩ ⟨4, 11⟩ ∧
      IsGap (Text.bytes sharedLine) ⟨15, 20⟩ ⟨16, 20⟩ ∧
      IsGap (Text.bytes sharedLine) ⟨20, 25⟩ ⟨21, 25⟩) ∧
    (statementGap sharedLine ⟨4, 11⟩).stop ≤ (statementGap sharedLine ⟨16, 20⟩).start ∧
      (statementGap sharedLine ⟨16, 20⟩).stop ≤ (statementGap sharedLine ⟨21, 25⟩).start := by
  have inked : Inked (Text.bytes sharedLine) ⟨4, 11⟩ := ⟨by decide, by decide, by decide⟩
  have inked_second : Inked (Text.bytes sharedLine) ⟨16, 20⟩ := ⟨by decide, by decide, by decide⟩
  have inked_third : Inked (Text.bytes sharedLine) ⟨21, 25⟩ := ⟨by decide, by decide, by decide⟩
  have gap_eq : statementGap sharedLine ⟨4, 11⟩ = ⟨2, 15⟩ := by decide
  have gap_second_eq : statementGap sharedLine ⟨16, 20⟩ = ⟨15, 20⟩ := by decide
  have gap_third_eq : statementGap sharedLine ⟨21, 25⟩ = ⟨20, 25⟩ := by decide
  obtain ⟨is_gap, is_gap_second, across⟩ := gaps_keep_order inked inked_second (by decide)
  obtain ⟨-, is_gap_third, beside⟩ := gaps_keep_order inked_second inked_third (by decide)
  rw [gap_eq] at is_gap
  rw [gap_second_eq] at is_gap_second
  rw [gap_third_eq] at is_gap_third
  exact ⟨⟨inked, inked_second, inked_third⟩, ⟨gap_eq, gap_second_eq, gap_third_eq⟩,
    ⟨is_gap, is_gap_second, is_gap_third⟩, across, beside⟩

end StatementGap
end Shakedown
