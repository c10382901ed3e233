import Mathlib.Data.List.Forall2
import Shakedown.Json.Printer
import Shakedown.Json.Reader

/-!
# Reading what was written

What the printer writes for a value is read as that value, whatever ends the value behind it. The
printer writes no blanks, so no part needs to know about those the reader skips.
-/

namespace Shakedown
namespace Json

/-! ## Where a value ends -/

/-- Nothing, or what may stand behind a value that is written in an array or an object. -/
def EndsValue : List Char → Prop
  | [] => True
  | char :: _ => char = ',' ∨ char = ']' ∨ char = '\x7d'

/-- Whether a character is a blank. -/
def IsBlank (char : Char) : Prop :=
  char = ' ' ∨ char = '\t' ∨ char = '\n' ∨ char = '\r'

instance : DecidablePred IsBlank := fun char =>
  inferInstanceAs (Decidable (char = ' ' ∨ char = '\t' ∨ char = '\n' ∨ char = '\r'))

theorem skipBlanks_cons (char : Char) (solid : ¬ IsBlank char) (rest : List Char) :
    skipBlanks (char :: rest) = char :: rest := by
  simp only [IsBlank, not_or] at solid
  simp [skipBlanks, solid]

/-- Characters that the reader takes for a value. Their first one is no blank and closes nothing. -/
structure Writes (chars : List Char) (value : Json) : Prop where
  /-- How the characters begin. -/
  begins : ∃ char rest, chars = char :: rest ∧ ¬ IsBlank char ∧ char ≠ ']' ∧ char ≠ '\x7d'
  /-- What the reader makes of them. -/
  reads : ∀ limit rest, chars.length < limit → EndsValue rest →
    readValue limit (chars ++ rest) = some (value, rest)

namespace Writes

variable {chars : List Char} {value : Json}

theorem ne_nil (writes : Writes chars value) : chars ≠ [] := by
  obtain ⟨char, rest, rfl, -⟩ := writes.begins
  simp

/-- A text that is written for a value is read as that value. -/
theorem read_ofList (writes : Writes chars value) : read (String.ofList chars) = some value := by
  have reads := writes.reads (chars.length + 1) [] (Nat.lt_succ_self _) trivial
  rw [List.append_nil] at reads
  simp [read, reads, skipBlanks]

end Writes

/-! ## Strings -/

/-- The piece of a string that a character is written as. -/
def writtenPiece (char : Char) : Piece :=
  if (escape char).length = 6 then .unit char.toNat else .char char

/-- The three ways in which a character is written. -/
theorem escape_cases (char : Char) :
    (∃ letter, escape char = ['\\', letter] ∧ letter ≠ 'u' ∧ shortEscape? letter = some char) ∨
    (char.toNat < 32 ∧ escape char =
      ['\\', 'u', '0', '0', hexDigit (char.toNat / 16), hexDigit (char.toNat % 16)]) ∨
    (escape char = [char] ∧ char ≠ '\x22' ∧ char ≠ '\\' ∧ ¬ char.toNat < 32) := by
  unfold escape
  iterate 7
    split
    · subst char
      exact .inl ⟨_, rfl, by decide, rfl⟩
  split
  case isTrue control => exact .inr (.inl ⟨control, rfl⟩)
  case isFalse quote slash _ _ _ _ _ control => exact .inr (.inr ⟨rfl, quote, slash, control⟩)

theorem unit?_hexDigits : ∀ unit < 32,
    unit? '0' '0' (hexDigit (unit / 16)) (hexDigit (unit % 16)) = some unit := by
  decide +kernel

/-- The reader takes what is written for a character as one piece. -/
theorem readPieces_escape (char : Char) (rest : List Char) :
    readPieces (escape char ++ rest) =
      (readPieces rest).map fun (pieces, rest) => (writtenPiece char :: pieces, rest) := by
  rcases escape_cases char with
    ⟨letter, written, notUnit, named⟩ | ⟨control, written⟩ | ⟨written, quote, slash, control⟩
  all_goals simp only [written, writtenPiece, List.cons_append, List.nil_append]
  · rw [readPieces, named]
    · cases readPieces rest <;> rfl
    · exact fun _ _ _ _ _ isUnit => absurd isUnit notUnit
  · rw [readPieces, unit?_hexDigits _ control]
    cases readPieces rest <;> rfl
  · rw [readPieces]
    · cases readPieces rest <;> simp [control]
    · exact quote
    · exact fun _ _ _ _ _ isSlash => absurd isSlash slash
    · exact fun _ _ isSlash => absurd isSlash slash

theorem readPieces_escaped (text rest : List Char) :
    readPieces (text.flatMap escape ++ '\x22' :: rest) = some (text.map writtenPiece, rest) := by
  induction text with
  | nil => rfl
  | cons char text ih =>
      rw [List.flatMap_cons, List.append_assoc, readPieces_escape, ih]
      rfl

theorem writtenPiece_eq (char : Char) :
    writtenPiece char = .char char ∨ writtenPiece char = .unit char.toNat ∧ char.toNat < 32 := by
  unfold writtenPiece
  rcases escape_cases char with ⟨letter, written, -⟩ | ⟨control, written⟩ | ⟨written, -⟩
  · simp [written]
  · simp [control, written]
  · simp [written]

/-- A control character is no surrogate, so none of the pieces written make a pair. -/
theorem pair_written (text : List Char) :
    Piece.pair (text.map writtenPiece) = text.map Piece.char := by
  induction text with
  | nil => rfl
  | cons char text ih =>
      rw [List.map_cons, List.map_cons]
      obtain asChar | ⟨asUnit, control⟩ := writtenPiece_eq char
      · rw [asChar, Piece.pair, ih]
      · have single : (Surrogate.isHigh char.toNat || Surrogate.isLow char.toNat) = false := by
          simp [Surrogate.isHigh, Surrogate.isLow]
          omega
        rw [asUnit, Piece.pair, ih]
        cases text with
        | nil => simp [single, Char.ofNat_toNat]
        | cons next text => simp [single, Char.ofNat_toNat]

theorem text?_written (text : List Char) : Piece.text? (text.map writtenPiece) = some text := by
  unfold Piece.text?
  rw [pair_written]
  induction text with
  | nil => rfl
  | cons char text ih => simp [List.mapM_cons, ih]

theorem readString_escaped (text rest : List Char) :
    readString (text.flatMap escape ++ '\x22' :: rest) = some (some text, rest) := by
  simp only [readString, readPieces_escaped, Option.map_some, text?_written]

theorem writes_text (text : String) : Writes (writeText text) (.string (some text)) where
  begins := ⟨'\x22', _, rfl, by decide, by decide, by decide⟩
  reads limit rest shorter ends := by
    obtain ⟨limit, rfl⟩ := Nat.exists_eq_succ_of_ne_zero (Nat.ne_of_gt (Nat.zero_lt_of_lt shorter))
    simp only [writeText, List.cons_append, List.append_assoc, List.nil_append]
    rw [readValue, skipBlanks_cons _ (by decide)]
    simp [readString_escaped]

/-! ## Other values without parts -/

theorem writes_null : Writes "null".toList .null where
  begins := ⟨'n', _, rfl, by decide, by decide, by decide⟩
  reads limit rest shorter ends := by
    obtain ⟨limit, rfl⟩ := Nat.exists_eq_succ_of_ne_zero (Nat.ne_of_gt (Nat.zero_lt_of_lt shorter))
    simp [readValue, skipBlanks]

/-- A value that may be absent. -/
def optional {α : Type} (value : α → Json) : Option α → Json
  | none => .null
  | some present => value present

theorem writes_optional {α : Type} {write : α → List Char} {value : α → Json}
    (writes : ∀ present, Writes (write present) (value present)) (given : Option α) :
    Writes (writeOptional write given) (optional value given) := by
  cases given with
  | none => exact writes_null
  | some present => exact writes present

theorem not_isDigit_of_endsValue {char : Char} {rest : List Char}
    (ends : EndsValue (char :: rest)) : isDigit char = false := by
  rcases ends with rfl | rfl | rfl <;> decide

/-- Digits are read up to where the value ends. -/
theorem readDigits_append {digits rest : List Char} (digital : ∀ char ∈ digits, isDigit char)
    (some_digit : digits ≠ []) (ends : EndsValue rest) :
    readDigits (digits ++ rest) = some (digits, rest) := by
  have stops : rest.takeWhile isDigit = [] ∧ rest.dropWhile isDigit = rest := by
    cases rest with
    | nil => simp
    | cons char rest => simp [not_isDigit_of_endsValue ends]
  rw [readDigits, List.takeWhile_append_of_pos digital, List.dropWhile_append_of_pos digital,
    stops.1, stops.2, List.append_nil]
  cases digits with
  | nil => exact absurd rfl some_digit
  | cons => rfl

theorem readFraction_of_endsValue {rest : List Char} (ends : EndsValue rest) :
    readFraction rest = some ([], rest) := by
  cases rest with
  | nil => rfl
  | cons char rest => rcases ends with rfl | rfl | rfl <;> rfl

theorem readExponent_of_endsValue {rest : List Char} (ends : EndsValue rest) :
    readExponent rest = some ([], rest) := by
  cases rest with
  | nil => rfl
  | cons char rest => rcases ends with rfl | rfl | rfl <;> rfl

/-- Digits without a superfluous zero are read as the number that they stand for. -/
theorem readValue_digits {digits rest : List Char} (digital : ∀ char ∈ digits, isDigit char)
    (some_digit : digits ≠ []) (plain : digits.length > 1 → digits.head? ≠ some '0')
    (ends : EndsValue rest) (limit : Nat) :
    readValue (limit + 1) (digits ++ rest) = some (.integer (digitsValue digits), rest) := by
  have number : readNumber false (digits ++ rest) = some (.integer (digitsValue digits), rest) := by
    simpa [readNumber, readDigits_append digital some_digit ends, readFraction_of_endsValue ends,
      readExponent_of_endsValue ends] using plain
  cases digits with
  | nil => exact absurd rfl some_digit
  | cons digit digits =>
      have isDigit := digital digit List.mem_cons_self
      have solid : ¬ IsBlank digit := by rintro (rfl | rfl | rfl | rfl) <;> contradiction
      rw [List.cons_append] at number ⊢
      rw [readValue, skipBlanks_cons _ solid]
      split
      case h_8 => exact number
      all_goals
        rename_i begins
        obtain ⟨rfl, -⟩ := List.cons.inj begins
        contradiction

/-- The digits of a byte are digits, more than one only without a leading zero. -/
theorem digits_byte : ∀ byte : Fin 256,
    byte.val.repr.toList.all isDigit ∧ byte.val.repr.toList ≠ [] ∧
      (byte.val.repr.toList.length > 1 → byte.val.repr.toList.head? ≠ some '0') ∧
      digitsValue byte.val.repr.toList = byte.val := by
  decide +kernel

theorem writes_byte (byte : UInt8) : Writes byte.toNat.repr.toList (.integer byte.toNat) := by
  obtain ⟨all_digits, some_digit, plain, meant⟩ := digits_byte byte.toFin
  have digital := List.all_eq_true.1 all_digits
  refine ⟨?_, fun limit rest shorter ends => ?_⟩
  · obtain ⟨digit, digits, written⟩ := List.exists_cons_of_ne_nil some_digit
    have isDigit := digital digit (written ▸ List.mem_cons_self)
    refine ⟨digit, digits, written, ?_, ?_, ?_⟩
    · rintro (rfl | rfl | rfl | rfl) <;> contradiction
    · rintro rfl
      contradiction
    · rintro rfl
      contradiction
  · obtain ⟨limit, rfl⟩ := Nat.exists_eq_succ_of_ne_zero (Nat.ne_of_gt (Nat.zero_lt_of_lt shorter))
    have reads := readValue_digits digital some_digit plain ends limit
    rw [meant] at reads
    exact reads

/-! ## Arrays -/

theorem length_commaSeparated_cons (part : List Char) (parts : List (List Char)) :
    part.length ≤ (commaSeparated (part :: parts)).length ∧
      (commaSeparated parts).length ≤ (commaSeparated (part :: parts)).length := by
  cases parts with
  | nil => simp [commaSeparated]
  | cons next parts =>
      simp only [commaSeparated, List.length_append, List.length_cons]
      omega

theorem length_le_commaSeparated {α : Type} {Written : List Char → α → Prop}
    {parts : List (List Char)} {values : List α} (written : List.Forall₂ Written parts values)
    (solid : ∀ {part value}, Written part value → part ≠ []) :
    parts.length ≤ (commaSeparated parts).length := by
  induction written with
  | nil => simp
  | @cons part value parts values writtenPart _ ih =>
      have positive := List.length_pos_iff.mpr (solid writtenPart)
      cases parts with
      | nil =>
          simp only [commaSeparated, List.length_cons, List.length_nil] at *
          omega
      | cons next parts =>
          simp only [commaSeparated, List.length_append, List.length_cons] at *
          omega

theorem commaSeparated_cons_cons (char : Char) (part : List Char) (parts : List (List Char)) :
    ∃ rest, commaSeparated ((char :: part) :: parts) = char :: rest := by
  cases parts with
  | nil => exact ⟨_, rfl⟩
  | cons => exact ⟨_, rfl⟩

/-- The reader of items goes over one part after the other. -/
theorem readItems_written {limit : Nat} {part : List Char} {parts : List (List Char)} {value : Json}
    {values : List Json} (writes : Writes part value) (others : List.Forall₂ Writes parts values)
    (shorter : (commaSeparated (part :: parts)).length < limit) (fuel : Nat)
    (enough : parts.length ≤ fuel) (rest : List Char) :
    readItems (readValue limit) (fuel + 1) (commaSeparated (part :: parts) ++ ']' :: rest) =
      some (value :: values, rest) := by
  induction others generalizing part value fuel with
  | nil =>
      have reads := writes.reads limit (']' :: rest) (by simpa [commaSeparated] using shorter)
        (.inr (.inl rfl))
      simp [commaSeparated, readItems, reads, skipBlanks_cons ']' (by decide)]
  | @cons next nextValue parts values writesNext _ ih =>
      obtain ⟨shorterPart, shorterRest⟩ := length_commaSeparated_cons part (next :: parts)
      obtain ⟨fuel, rfl⟩ : ∃ less, fuel = less + 1 := ⟨fuel - 1, by simp at enough; omega⟩
      have reads := writes.reads limit (',' :: (commaSeparated (next :: parts) ++ ']' :: rest))
        (by omega) (.inl rfl)
      have readsRest := ih writesNext (by omega) fuel (by simpa using enough)
      rw [commaSeparated, List.append_assoc, List.cons_append, readItems]
      · simp [reads, skipBlanks_cons ',' (by decide), readsRest]
      · simp

theorem writes_array {parts : List (List Char)} {values : List Json}
    (writes : List.Forall₂ Writes parts values) : Writes (writeArray parts) (.array values) := by
  refine ⟨⟨'[', _, rfl, by decide, by decide, by decide⟩, fun limit rest shorter ends => ?_⟩
  obtain ⟨limit, rfl⟩ := Nat.exists_eq_succ_of_ne_zero (Nat.ne_of_gt (Nat.zero_lt_of_lt shorter))
  simp only [writeArray, List.length_cons, List.length_append, List.length_nil] at shorter
  simp only [writeArray, List.cons_append, List.append_assoc, List.nil_append]
  rw [readValue, skipBlanks_cons _ (by decide)]
  cases writes with
  | nil => simp [commaSeparated, skipBlanks_cons ']' (by decide)]
  | @cons part value parts values writesPart others =>
      have count := length_le_commaSeparated (.cons writesPart others) Writes.ne_nil
      have within : (commaSeparated (part :: parts)).length < limit := by omega
      have reads := readItems_written writesPart others within limit
        (by rw [List.length_cons] at count; omega) rest
      obtain ⟨first, behind, rfl, solid, open_bracket, -⟩ := writesPart.begins
      obtain ⟨more, begins⟩ := commaSeparated_cons_cons first behind parts
      rw [begins, List.cons_append] at reads ⊢
      simp only [skipBlanks_cons _ solid]
      split
      case h_1 closes => exact absurd (List.cons.inj closes).1 open_bracket
      case h_2 => rw [reads, Option.map_some]

/-! ## Objects -/

/-- Characters that the reader takes for a member of an object. -/
def WritesMember (chars : List Char) (member : Option String × Json) : Prop :=
  ∃ key part value, chars = writeMember key part ∧ member = (some key, value) ∧ Writes part value

theorem writesMember {part : List Char} {value : Json} (key : String) (writes : Writes part value) :
    WritesMember (writeMember key part) (some key, value) :=
  ⟨key, part, value, rfl, rfl, writes⟩

theorem length_lt_writeMember (key : String) (part : List Char) :
    part.length < (writeMember key part).length := by
  simp only [writeMember, List.length_append, List.length_cons]
  omega

theorem WritesMember.ne_nil {part : List Char} {member : Option String × Json}
    (writes : WritesMember part member) : part ≠ [] := by
  obtain ⟨key, part, value, rfl, -, -⟩ := writes
  exact List.ne_nil_of_length_pos (Nat.zero_lt_of_lt (length_lt_writeMember key part))

/-- The reader of members goes over one member after the other. -/
theorem readMembers_written {limit : Nat} {part : List Char} {parts : List (List Char)}
    {member : Option String × Json} {members : List (Option String × Json)}
    (writes : WritesMember part member) (others : List.Forall₂ WritesMember parts members)
    (shorter : (commaSeparated (part :: parts)).length < limit) (fuel : Nat)
    (enough : parts.length ≤ fuel) (rest : List Char) :
    readMembers (readValue limit) (fuel + 1) (commaSeparated (part :: parts) ++ '\x7d' :: rest) =
      some (member :: members, rest) := by
  induction others generalizing part member fuel with
  | nil =>
      obtain ⟨key, part, value, rfl, rfl, writes⟩ := writes
      have reads := writes.reads limit ('\x7d' :: rest)
        (Nat.lt_trans (length_lt_writeMember key part) shorter) (.inr (.inr rfl))
      simp [commaSeparated, writeMember, writeText, readMembers, readString_escaped, reads,
        skipBlanks_cons '\x22' (by decide), skipBlanks_cons ':' (by decide),
        skipBlanks_cons '\x7d' (by decide)]
  | @cons next nextMember parts members writesNext _ ih =>
      obtain ⟨key, part, value, rfl, rfl, writes⟩ := writes
      obtain ⟨shorterPart, shorterRest⟩ :=
        length_commaSeparated_cons (writeMember key part) (next :: parts)
      obtain ⟨fuel, rfl⟩ : ∃ less, fuel = less + 1 := ⟨fuel - 1, by simp at enough; omega⟩
      have reads := writes.reads limit (',' :: (commaSeparated (next :: parts) ++ '\x7d' :: rest))
        (by have := length_lt_writeMember key part; omega) (.inl rfl)
      have readsRest := ih writesNext (by omega) fuel (by simpa using enough)
      rw [commaSeparated, List.append_assoc, List.cons_append, readMembers]
      · simp [writeMember, writeText, readString_escaped, reads, readsRest,
          skipBlanks_cons '\x22' (by decide), skipBlanks_cons ':' (by decide),
          skipBlanks_cons ',' (by decide)]
      · simp

theorem writes_object {parts : List (List Char)} {members : List (Option String × Json)}
    (writes : List.Forall₂ WritesMember parts members) :
    Writes (writeObject parts) (.object members) := by
  refine ⟨⟨'\x7b', _, rfl, by decide, by decide, by decide⟩, fun limit rest shorter ends => ?_⟩
  obtain ⟨limit, rfl⟩ := Nat.exists_eq_succ_of_ne_zero (Nat.ne_of_gt (Nat.zero_lt_of_lt shorter))
  simp only [writeObject, List.length_cons, List.length_append, List.length_nil] at shorter
  simp only [writeObject, List.cons_append, List.append_assoc, List.nil_append]
  rw [readValue, skipBlanks_cons _ (by decide)]
  cases writes with
  | nil => simp [commaSeparated, skipBlanks_cons '\x7d' (by decide)]
  | @cons part member parts members writesPart others =>
      have count := length_le_commaSeparated (.cons writesPart others) WritesMember.ne_nil
      have within : (commaSeparated (part :: parts)).length < limit := by omega
      have reads := readMembers_written writesPart others within limit
        (by rw [List.length_cons] at count; omega) rest
      obtain ⟨key, part, value, rfl, -, -⟩ := writesPart
      obtain ⟨more, begins⟩ :=
        commaSeparated_cons_cons '\x22' (key.toList.flatMap escape ++ ['\x22'] ++ ':' :: part) parts
      rw [writeMember, writeText, List.cons_append, begins, List.cons_append] at reads ⊢
      simp only [skipBlanks_cons '\x22' (by decide)]
      split
      case h_1 closes => exact absurd (List.cons.inj closes).1 (by decide)
      case h_2 => rw [reads, Option.map_some]

end Json
end Shakedown
