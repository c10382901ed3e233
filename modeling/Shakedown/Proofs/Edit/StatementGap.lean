import Shakedown.Proofs.Edit.Widening
import Shakedown.Proofs.Text.Bytes
import Shakedown.Proofs.Text.Ink

/-!
# Gaps of statements

The gap of a statement is the statement with blanks around it and at most one line break behind it.
So it takes nothing of what lies before or behind the statement, and it cuts no character. A
statement is framed by characters that leave ink, hence by bytes that do, and the gaps of two
statements keep apart as those of any such ranges of bytes.
-/

namespace Shakedown

namespace StatementGap

open Text

/-- A space or a tab. -/
def isBlank (char : Char) : Bool :=
  char == ' ' || char == '\t'

/-- The end of a line. -/
def IsLineEnd (chars : List Char) : Prop :=
  chars = ['\n'] ∨ chars = ['\r', '\n']

/-- The gap holds, around the range, blanks only, and behind them a line end or nothing. -/
structure Surrounds (text : List Char) (gap span : Span) : Prop where
  /-- Only blanks lie before the range. -/
  before : ∃ blanks rest, LeftAt text gap.start (blanks ++ rest) ∧
    gap.start + width blanks = span.start ∧ blanks.all isBlank
  /-- Behind the range lies nothing, or blanks and a line end. -/
  behind : gap.stop = span.stop ∨ ∃ blanks ending rest,
    LeftAt text span.stop (blanks ++ ending ++ rest) ∧
      span.stop + width (blanks ++ ending) = gap.stop ∧ blanks.all isBlank ∧ IsLineEnd ending

theorem agrees_isBlank : Agrees isIndent isBlank where
  passed := by
    intro char blank
    simp only [isBlank, Bool.or_eq_true, beq_iff_eq] at blank
    obtain rfl | rfl := blank
    · exact ⟨32, by decide, by decide⟩
    · exact ⟨9, by decide, by decide⟩
  failed := by
    intro char other byte member
    simp only [isBlank, Bool.or_eq_false_iff, beq_eq_false_iff_ne] at other
    have not_space : byte ≠ 32 := ne_byte_of_ne member other.1 rfl (by decide)
    have not_tab : byte ≠ 9 := ne_byte_of_ne member other.2 rfl (by decide)
    simp [isIndent, not_space, not_tab]

theorem width_of_isBlank {chars : List Char} (blank : chars.all isBlank) :
    width chars = chars.length :=
  width_eq_length fun char member => agrees_isBlank.narrow (List.all_eq_true.1 blank char member)

theorem blankLineEnd?_eq_some {rest : List Char} {length : Nat}
    (found : blankLineEnd? (bytesOf rest) = some length) :
    ∃ blanks ending more, rest = blanks ++ ending ++ more ∧ length = width (blanks ++ ending) ∧
      blanks.all isBlank ∧ IsLineEnd ending := by
  have blanks_all : (rest.takeWhile isBlank).all isBlank := List.all_takeWhile
  have parts : rest.takeWhile isBlank ++ rest.dropWhile isBlank = rest :=
    List.takeWhile_append_dropWhile
  simp only [blankLineEnd?, agrees_isBlank.length_takeWhile, agrees_isBlank.dropWhile_eq] at found
  split at found
  · rename_i more bytes_eq
    obtain ⟨first, others, drop_eq, first_eq, others_eq⟩ := eq_cons_of_bytesOf bytes_eq (by decide)
    obtain ⟨second, behind, rfl, second_eq, -⟩ := eq_cons_of_bytesOf others_eq (by decide)
    obtain rfl : first = '\r' := Char.toNat_inj.1 first_eq
    obtain rfl : second = '\n' := Char.toNat_inj.1 second_eq
    refine ⟨_, ['\r', '\n'], behind, ?_, ?_, blanks_all, .inr rfl⟩
    · rw [drop_eq] at parts
      simpa using parts.symm
    · rw [width_append, width_of_isBlank blanks_all]
      exact (Option.some.inj found).symm
  · rename_i more bytes_eq
    obtain ⟨first, behind, drop_eq, first_eq, -⟩ := eq_cons_of_bytesOf bytes_eq (by decide)
    obtain rfl : first = '\n' := Char.toNat_inj.1 first_eq
    refine ⟨_, ['\n'], behind, ?_, ?_, blanks_all, .inl rfl⟩
    · rw [drop_eq] at parts
      simpa using parts.symm
    · rw [width_append, width_of_isBlank blanks_all]
      exact (Option.some.inj found).symm
  · simp at found

/-- Where a widened range begins: behind the last character before it that is no blank. -/
theorem widen_start {before : List Char} (rest : List Char) {span : Span}
    (start_eq : width before = span.start) :
    ∃ front blanks, before = front ++ blanks ∧ blanks.all isBlank ∧
      (widen (bytesOf (before ++ rest)) span).start = width front := by
  have blanks_all : ((before.reverse.takeWhile isBlank).reverse).all isBlank := by
    rw [List.all_reverse]
    exact List.all_takeWhile
  have before_eq : before = (before.reverse.dropWhile isBlank).reverse ++
      (before.reverse.takeWhile isBlank).reverse := by
    rw [← List.reverse_append, List.takeWhile_append_dropWhile, List.reverse_reverse]
  have taken : (bytesOf (before ++ rest)).take span.start = bytesOf before := by
    rw [← start_eq, ← length_bytesOf, bytesOf_append, List.take_left]
  refine ⟨_, _, before_eq, blanks_all, ?_⟩
  have start_widened := start_widen (bytesOf (before ++ rest)) span
  rw [taken, agrees_isBlank.length_takeWhile_reverse] at start_widened
  have parts_width := congrArg width before_eq
  rw [width_append, width_of_isBlank blanks_all, List.length_reverse] at parts_width
  omega

/-- Where a widened range ends: where the range does, or at the end of the line. -/
theorem widen_stop {before : List Char} (rest : List Char) {span : Span}
    (stop_eq : width before = span.stop) :
    (widen (bytesOf (before ++ rest)) span).stop = span.stop ∨
      ∃ blanks ending more, rest = blanks ++ ending ++ more ∧ blanks.all isBlank ∧
        IsLineEnd ending ∧
        (widen (bytesOf (before ++ rest)) span).stop = span.stop + width (blanks ++ ending) := by
  have short : min span.stop (bytesOf (before ++ rest)).length = span.stop := by
    rw [length_bytesOf, width_append]
    omega
  have dropped : (bytesOf (before ++ rest)).drop span.stop = bytesOf rest := by
    rw [← stop_eq, ← length_bytesOf, bytesOf_append, List.drop_left]
  have widened := stop_widen (bytesOf (before ++ rest)) span
  rw [short, dropped] at widened
  split at widened
  case isFalse => exact .inl widened
  cases found : blankLineEnd? (bytesOf rest) with
  | none => exact .inl (by rw [widened, found, Option.getD_none, Nat.add_zero])
  | some length =>
      right
      obtain ⟨blanks, ending, more, rest_eq, rfl, blank, ends⟩ := blankLineEnd?_eq_some found
      exact ⟨blanks, ending, more, rest_eq, blank, ends, by rw [widened, found, Option.getD_some]⟩

theorem surrounds_widen {chars : List Char} {span : Span} (begins : IsBoundary chars span.start)
    (ends : IsBoundary chars span.stop) : Surrounds chars (widen (bytesOf chars) span) span := by
  constructor
  · obtain ⟨before, rest, rfl, start_eq⟩ := isBoundary_iff.1 begins
    obtain ⟨front, blanks, rfl, blank, widened⟩ := widen_start rest start_eq
    refine ⟨blanks, rest, ⟨front, List.append_assoc .., widened.symm⟩, ?_, blank⟩
    rw [widened, ← width_append, start_eq]
  · obtain ⟨before, rest, rfl, stop_eq⟩ := isBoundary_iff.1 ends
    obtain same | ⟨blanks, ending, more, rfl, blank, line_end, widened⟩ :=
      widen_stop rest stop_eq
    · exact .inl same
    · exact .inr ⟨blanks, ending, more, ⟨before, rfl, stop_eq⟩, widened.symm, blank, line_end⟩

namespace Surrounds

variable {text : List Char} {gap span : Span}

theorem start_le (surrounds : Surrounds text gap span) : gap.start ≤ span.start := by
  obtain ⟨blanks, rest, -, start_eq, -⟩ := surrounds.before
  omega

theorem le_stop (surrounds : Surrounds text gap span) : span.stop ≤ gap.stop := by
  obtain same | ⟨blanks, ending, rest, -, stop_eq, -⟩ := surrounds.behind
  · omega
  · omega

theorem covers (surrounds : Surrounds text gap span) : gap.covers span :=
  Span.covers_iff.2 ⟨surrounds.start_le, surrounds.le_stop⟩

theorem start_boundary (surrounds : Surrounds text gap span) : IsBoundary text gap.start := by
  obtain ⟨blanks, rest, left, -⟩ := surrounds.before
  exact left.isBoundary

theorem stop_boundary (surrounds : Surrounds text gap span) (ends : IsBoundary text span.stop) :
    IsBoundary text gap.stop := by
  obtain same | ⟨blanks, ending, rest, left, stop_eq, -⟩ := surrounds.behind
  · rwa [same]
  · rw [← stop_eq]
    exact left.drop.isBoundary

end Surrounds

/-! ## Framed ranges -/

/-- A character that leaves ink is written with bytes that do. -/
theorem leavesInk_of_isInk {char : Char} (ink : isInk char) {byte : UInt8}
    (member : byte ∈ String.utf8EncodeChar char) : leavesInk byte := by
  simp only [isInk, Bool.and_eq_true, bne_iff_ne] at ink
  obtain ⟨⟨⟨space, tab⟩, feed⟩, carriage⟩ := ink
  have not_space : byte ≠ 32 := ne_byte_of_ne member space rfl (by decide)
  have not_tab : byte ≠ 9 := ne_byte_of_ne member tab rfl (by decide)
  have not_feed : byte ≠ 10 := ne_byte_of_ne member feed rfl (by decide)
  have not_carriage : byte ≠ 13 := ne_byte_of_ne member carriage rfl (by decide)
  simp [leavesInk, isIndent, not_space, not_tab, not_feed, not_carriage]

/-- The bytes of a character stand in the text from the offset of the character on. -/
theorem getElem?_of_leftAt {text rest : List Char} {char : Char} {offset index : Nat}
    (left : LeftAt text offset (char :: rest)) (index_lt : index < char.utf8Size) :
    ∃ byte ∈ String.utf8EncodeChar char, (bytesOf text)[offset + index]? = some byte := by
  obtain ⟨front, rfl, rfl⟩ := left
  rw [← String.length_utf8EncodeChar] at index_lt
  refine ⟨(String.utf8EncodeChar char)[index], List.getElem_mem index_lt, ?_⟩
  rw [bytesOf_append, bytesOf_cons, ← length_bytesOf, List.getElem?_append_right (by omega),
    Nat.add_sub_cancel_left, List.getElem?_append_left index_lt, List.getElem?_eq_getElem]

/-- Ink at both ends is ink on the first and on the last byte. -/
theorem inked_of_framed {text : List Char} {span : Span} (framed : Framed text span) :
    Inked (bytesOf text) span := by
  obtain ⟨first, rest, left, first_ink⟩ := framed.begins
  obtain ⟨start, last, behind, last_left, stop_eq, last_ink⟩ := framed.ends
  have last_pos := last.utf8Size_pos
  obtain ⟨byte, member, found⟩ := getElem?_of_leftAt left first.utf8Size_pos
  obtain ⟨byte', member', found'⟩ :=
    getElem?_of_leftAt last_left (Nat.sub_lt last_pos Nat.zero_lt_one)
  have place_eq : span.stop - 1 = start + (last.utf8Size - 1) := by omega
  exact
    { begins := (Option.any_eq_true ..).2 ⟨byte, found, leavesInk_of_isInk first_ink member⟩
      stop_pos := by omega
      ends := (Option.any_eq_true ..).2
        ⟨byte', place_eq ▸ found', leavesInk_of_isInk last_ink member'⟩ }

end StatementGap

/-- The gap of a framed range surrounds it. -/
theorem surrounds_statementGap {source : String} {span : Span}
    (framed : Text.Framed source.toList span) :
    StatementGap.Surrounds source.toList (statementGap source span) span := by
  rw [statementGap, Text.bytes_eq]
  exact StatementGap.surrounds_widen framed.begins.isBoundary framed.ends.isBoundary

/-- The gaps of framed ranges follow each other as the ranges do. -/
theorem statementGap_stop_le {source : String} {span next : Span}
    (framed : Text.Framed source.toList span) (framed_next : Text.Framed source.toList next)
    (ordered : span.stop ≤ next.start) :
    (statementGap source span).stop ≤ (statementGap source next).start := by
  have inked := StatementGap.inked_of_framed framed
  have inked_next := StatementGap.inked_of_framed framed_next
  rw [← Text.bytes_eq] at inked inked_next
  exact StatementGap.stop_le_start inked.isGap inked_next.isGap inked inked_next ordered

end Shakedown
