import Shakedown.Proofs.SourceMap.Grammar

/-!
# Mappings are read within 64 bits

The reader of mappings counts in integers without bounds. A second reader goes the same way and
stops as soon as a value that it computes does not fit into 64 bits. It never stops for that: seven
digits have 35 bits, a number without its sign has 34, and what numbers are added to has 32.
-/

namespace Shakedown

/-! ## Values within bounds -/

/-- Why a bounded reader has no answer. -/
inductive Fault where
  /-- A value does not fit into 64 bits. -/
  | overflow
  /-- The text is malformed. -/
  | malformed
  deriving DecidableEq, Repr

/-- A signed value of 64 bits. -/
def Fits64 (value : Int) : Prop :=
  -9223372036854775808 ≤ value ∧ value < 9223372036854775808

instance (value : Int) : Decidable (Fits64 value) :=
  inferInstanceAs (Decidable (_ ∧ _))

variable {α β : Type}

/-- Goes on if all values that are computed fit. -/
def computing (values : List Int) (next : Except Fault α) : Except Fault α :=
  if ∀ value ∈ values, Fits64 value then next else .error .overflow

theorem computing_of_fit {values : List Int} (fit : ∀ value ∈ values, Fits64 value)
    (next : Except Fault α) : computing values next = next :=
  if_pos fit

/-- The answer of a bounded reader that never meets a bound. -/
def unbounded : Option α → Except Fault α
  | none => .error .malformed
  | some answer => .ok answer

@[simp]
theorem unbounded_some (answer : α) : unbounded (some answer) = .ok answer := rfl

@[simp]
theorem unbounded_none : unbounded (none : Option α) = .error .malformed := rfl

theorem map_unbounded (change : α → β) (answer : Option α) :
    (unbounded answer).map change = unbounded (answer.map change) := by
  cases answer <;> rfl

/-- A bounded reader that goes on without meeting a bound has not met one. -/
theorem unbounded_bind {answer : Option α} {next : α → Option β} {next64 : α → Except Fault β}
    (agree : ∀ found, answer = some found → next64 found = unbounded (next found)) :
    (unbounded answer >>= next64) = unbounded (answer >>= next) := by
  cases answer with
  | none => rfl
  | some found => exact agree found rfl

namespace Vlq

/-! ## Digits -/

/-- The reader of numbers, with all values within bounds: the digit in its place, the digits so far
and, behind the last digit, the magnitude and the number. -/
def decodeFrom64 : (bits count : Nat) → List Char → Except Fault (List Int)
  | _, count, [] => if count = 0 then .ok [] else .error .malformed
  | bits, count, char :: rest =>
      match digitOf? char with
      | none => .error .malformed
      | some digit =>
          if digitLimit ≤ count then
            .error .malformed
          else
            let placed := digit % 32 * weight count
            let bits' := bits + placed
            computing [placed, bits'] <|
              if 32 ≤ digit then decodeFrom64 bits' (count + 1) rest
              else
                computing [(bits' / 2 : Nat), unzigzag bits'] <|
                  (decodeFrom64 0 0 rest).map (unzigzag bits' :: ·)

/-- The reader of numbers, with all values within bounds. -/
def decode64 (text : List Char) : Except Fault (List Int) :=
  decodeFrom64 0 0 text

theorem add_digit_lt {bits count : Nat} (bounded : bits < weight count) (digit : Nat) :
    bits + digit % 32 * weight count < weight (count + 1) := by
  have digit_le : digit % 32 ≤ 31 := by omega
  have placed_le := Nat.mul_le_mul_right (weight count) digit_le
  rw [weight]
  omega

theorem fits64_of_digits {bits : Nat} (small : bits < weight digitLimit) :
    Fits64 bits ∧ Fits64 (bits / 2 : Nat) ∧ Fits64 (unzigzag bits) := by
  have small : bits < 34359738368 := small
  unfold Fits64 unzigzag
  refine ⟨by omega, by omega, ?_⟩
  split <;> omega

/-- The digits so far are bounded by their number, and there are never more than seven. -/
theorem decodeFrom64_eq {bits count : Nat} (bounded : bits < weight count) (text : List Char) :
    decodeFrom64 bits count text = unbounded (decodeFrom bits count text) := by
  induction text generalizing bits count with
  | nil =>
      rw [decodeFrom64, decodeFrom]
      split <;> rfl
  | cons char rest ih =>
      rw [decodeFrom64, decodeFrom]
      cases digitOf? char with
      | none => rfl
      | some digit =>
          by_cases full : digitLimit ≤ count
          · simp only [full, if_true, unbounded_none]
          · have next_lt := add_digit_lt bounded digit
            have next_small : bits + digit % 32 * weight count < weight digitLimit :=
              Nat.lt_of_lt_of_le next_lt (weight_mono (by omega))
            obtain ⟨next_fits, magnitude_fits, number_fits⟩ := fits64_of_digits next_small
            have placed_fits : Fits64 (digit % 32 * weight count : Nat) :=
              (fits64_of_digits (by omega)).1
            simp only [full, if_false]
            rw [computing_of_fit (by simpa using ⟨placed_fits, next_fits⟩),
              computing_of_fit (by simpa using ⟨magnitude_fits, number_fits⟩)]
            split
            · exact ih next_lt
            · rw [ih (by decide), map_unbounded]

theorem decode64_eq (text : List Char) : decode64 text = unbounded (decode text) :=
  decodeFrom64_eq (by decide) text

end Vlq

/-! ## Groups -/

namespace Mappings

/-- The running values that a group of numbers is added to, in the order of the numbers. -/
def addends (running : Running) : List Int :=
  [running.column, running.source, running.originLine, running.originColumn, running.name]

/-- The values that a group of numbers leads to. -/
def sums (running : Running) (numbers : List Int) : List Int :=
  ((addends running).zip numbers).map fun (value, number) => value + number

/-- The reader of a line, with all values within bounds: the sums and the line itself. -/
def decodeGroups64 (line : Nat) (running : Running) :
    List (List Char) → Except Fault (List Segment × Running)
  | [] => .ok ([], running)
  | group :: groups => do
      let numbers ← Vlq.decode64 group
      let (segment, running) ←
        computing (line :: sums running numbers) (unbounded (segment? line running numbers))
      let (segments, running) ← decodeGroups64 line running groups
      return (segment :: segments, running)

/-- The reader of lines, with all values within bounds. -/
def decodeLines64 (line : Nat) (running : Running) :
    List (List Char) → Except Fault (List Segment)
  | [] => .ok []
  | text :: texts => do
      let (segments, running) ← decodeGroups64 line running.newLine (groups text)
      return segments ++ (← decodeLines64 (line + 1) running texts)

/-- The reader of mappings, with all values within bounds. -/
def decode64 (text : String) : Except Fault (List Segment) :=
  decodeLines64 0 Running.start (splitAt ';' text.toList)

/-- The values behind a segment that is read are those that the segment has. -/
theorem step_of_segment? {line : Nat} {running after : Running} {numbers : List Int}
    {segment : Segment} (read : segment? line running numbers = some (segment, after)) :
    after = running.step segment := by
  unfold segment? at read
  split at read
  · simp only [Option.bind_eq_bind, Option.bind_eq_some_iff, word?_eq_some_iff] at read
    obtain ⟨_, -, _, ⟨column_eq, -⟩, same⟩ := read
    obtain ⟨rfl, rfl⟩ := Prod.mk.inj (Option.some.inj same)
    simp [Running.step, column_eq]
  · simp only [Option.bind_eq_bind, Option.bind_eq_some_iff, word?_eq_some_iff] at read
    obtain ⟨_, -, _, ⟨column_eq, -⟩, _, ⟨originLine_eq, -⟩, _, ⟨originColumn_eq, -⟩, _,
      ⟨source_eq, -⟩, same⟩ := read
    obtain ⟨rfl, rfl⟩ := Prod.mk.inj (Option.some.inj same)
    simp [Running.step, column_eq, originLine_eq, originColumn_eq, source_eq]
  · simp only [Option.bind_eq_bind, Option.bind_eq_some_iff, word?_eq_some_iff] at read
    obtain ⟨_, -, _, ⟨column_eq, -⟩, _, ⟨originLine_eq, -⟩, _, ⟨originColumn_eq, -⟩, _,
      ⟨source_eq, -⟩, _, ⟨name_eq, -⟩, same⟩ := read
    obtain ⟨rfl, rfl⟩ := Prod.mk.inj (Option.some.inj same)
    simp [Running.step, column_eq, originLine_eq, originColumn_eq, source_eq, name_eq]
  · simp at read

theorem fits_after_segment? {line : Nat} {running after : Running} {numbers : List Int}
    {segment : Segment} (running_fits : running.Fits)
    (read : segment? line running numbers = some (segment, after)) : after.Fits := by
  rw [step_of_segment? read]
  exact running_fits.step (fits_of_segment? read).2

theorem fits_after_decodeGroups {line : Nat} {running after : Running} {texts : List (List Char)}
    {segments : List Segment} (running_fits : running.Fits)
    (read : decodeGroups line running texts = some (segments, after)) : after.Fits := by
  induction texts generalizing running segments with
  | nil =>
      obtain ⟨-, rfl⟩ := Prod.mk.inj (Option.some.inj read)
      exact running_fits
  | cons text texts ih =>
      simp only [decodeGroups, Option.bind_eq_bind, Option.bind_eq_some_iff] at read
      obtain ⟨numbers, -, ⟨segment, next⟩, segment_eq, ⟨others, last⟩, others_eq, same⟩ := read
      obtain ⟨-, rfl⟩ := Prod.mk.inj (Option.some.inj same)
      exact ih (fits_after_segment? running_fits segment_eq) others_eq

theorem isWord_addends {running : Running} (fits : running.Fits) :
    ∀ value ∈ addends running, IsWord value := by
  simp [addends, fits.column, fits.source, fits.originLine, fits.originColumn, fits.name]

theorem fits64_sums {running : Running} (running_fits : running.Fits) {text : List Char}
    {numbers : List Int} (text_eq : Vlq.decode text = some numbers) :
    ∀ value ∈ sums running numbers, Fits64 value := by
  obtain ⟨numerals, -, rfl⟩ := Vlq.decode_eq_some_iff.1 text_eq
  intro value member
  obtain ⟨⟨before, number⟩, paired, rfl⟩ := List.mem_map.1 member
  obtain ⟨before_mem, number_mem⟩ := List.of_mem_zip paired
  obtain ⟨numeral, -, rfl⟩ := List.mem_map.1 number_mem
  obtain ⟨nonneg, before_lt⟩ := isWord_addends running_fits before before_mem
  obtain ⟨lower, upper⟩ := numeral.abs_value_lt
  simp only [Fits64]
  omega

theorem decodeGroups64_eq {line : Nat} (line_small : line < 4294967296) {running : Running}
    (running_fits : running.Fits) (texts : List (List Char)) :
    decodeGroups64 line running texts = unbounded (decodeGroups line running texts) := by
  induction texts generalizing running with
  | nil => rfl
  | cons text texts ih =>
      rw [decodeGroups64, decodeGroups, Vlq.decode64_eq]
      refine unbounded_bind fun numbers text_eq => ?_
      have line_fits : Fits64 line := by
        unfold Fits64
        omega
      rw [computing_of_fit
        (List.forall_mem_cons.2 ⟨line_fits, fits64_sums running_fits text_eq⟩)]
      refine unbounded_bind ?_
      rintro ⟨segment, after⟩ segment_eq
      dsimp only
      rw [ih (fits_after_segment? running_fits segment_eq)]
      exact unbounded_bind fun _ _ => rfl

theorem decodeLines64_eq {line : Nat} {running : Running} (running_fits : running.Fits)
    {texts : List (List Char)} (small : line + texts.length ≤ 4294967296) :
    decodeLines64 line running texts = unbounded (decodeLines line running texts) := by
  induction texts generalizing line running with
  | nil => rfl
  | cons text texts ih =>
      rw [List.length_cons] at small
      rw [decodeLines64, decodeLines, decodeGroups64_eq (by omega) running_fits.newLine]
      refine unbounded_bind ?_
      rintro ⟨segments, after⟩ segments_eq
      dsimp only
      rw [ih (fits_after_decodeGroups running_fits.newLine segments_eq) (by omega)]
      exact unbounded_bind fun _ _ => rfl

theorem decode64_eq {text : String} (small : Text.width text.toList < 4294967296) :
    decode64 text = unbounded (decode text) := by
  have few := length_splitAt_le ';' text.toList
  exact decodeLines64_eq Running.fits_start (by omega)

end Mappings

namespace SourceMap

open Mappings

/-- A text of mappings is read exactly when it stands for groups whose values fit, as the segments
with these values; otherwise it is reported as malformed. No value on the way leaves the range of
64 bits. -/
theorem segmentsOf_iff_spells {mappings : String}
    (small : Text.width mappings.toList < 4294967296) :
    (∀ segments : List Segment, segmentsOf mappings = .ok segments ↔
      ∃ groups, Spells mappings groups ∧ segments = (readings [] groups).map Reading.segment) ∧
    ((¬∃ groups, Spells mappings groups) →
      segmentsOf mappings = .error (malformed mappings) ∧
        (malformed mappings).report.code = "BO-MAP") ∧
    decode64 mappings = unbounded (decode mappings) := by
  have read_iff (segments : List Segment) : segmentsOf mappings = .ok segments ↔
      ∃ groups, Spells mappings groups ∧ segments = (readings [] groups).map Reading.segment :=
    segmentsOf_eq_ok_iff.trans (decode_eq_some_iff small)
  refine ⟨read_iff, fun foreign => ⟨?_, rfl⟩, decode64_eq small⟩
  cases read : decode mappings with
  | none => simp [segmentsOf, read]
  | some segments =>
      obtain ⟨groups, spells, -⟩ := (decode_eq_some_iff small).1 read
      exact absurd ⟨groups, spells⟩ foreign

/-- Groups with a zero of the other sign and a zero of two digits. -/
def paddedGroups : List Group :=
  let single (digit : Fin 32) : Vlq.Numeral := ⟨[], digit, by decide, by simp, digit.isLt⟩
  [ ⟨1, [single 1]⟩
  , ⟨1, [⟨[0], 0, by decide, by decide, by decide⟩, single 0, single 0, single 4]⟩ ]

/-- The groups stand behind an empty line with an empty group between them. A column in front of
the line is refused. -/
theorem segmentsOf_iff_spells_padded :
    Text.width ";B,,gAAAE".toList < 4294967296 ∧ Spells ";B,,gAAAE" paddedGroups ∧
    segmentsOf ";B,,gAAAE" = .ok [⟨⟨1, 0⟩, none⟩, ⟨⟨1, 0⟩, some ⟨0, ⟨0, 2⟩, none⟩⟩] ∧
    decode64 ";B,,gAAAE" = .ok [⟨⟨1, 0⟩, none⟩, ⟨⟨1, 0⟩, some ⟨0, ⟨0, 2⟩, none⟩⟩] ∧
    Text.width "D".toList < 4294967296 ∧ (¬∃ groups, Spells "D" groups) ∧
    segmentsOf "D" = .error (malformed "D") := by
  have padded_small : Text.width ";B,,gAAAE".toList < 4294967296 := by decide
  have spells : Spells ";B,,gAAAE" paddedGroups :=
    ⟨by decide +kernel, by decide, by decide +kernel⟩
  obtain ⟨padded_iff, -, padded_bounded⟩ := segmentsOf_iff_spells padded_small
  have padded_read : segmentsOf ";B,,gAAAE" =
      .ok [⟨⟨1, 0⟩, none⟩, ⟨⟨1, 0⟩, some ⟨0, ⟨0, 2⟩, none⟩⟩] :=
    (padded_iff _).2 ⟨paddedGroups, spells, by decide +kernel⟩
  have single_small : Text.width "D".toList < 4294967296 := by decide
  have foreign : ¬∃ groups, Spells "D" groups := by
    rintro ⟨groups, spells⟩
    have read := ((segmentsOf_iff_spells single_small).1 _).2 ⟨groups, spells, rfl⟩
    have refused : decode "D" = none := by decide +kernel
    rw [segmentsOf_eq_ok_iff, refused] at read
    exact absurd read (by simp)
  refine ⟨padded_small, spells, padded_read, ?_, single_small, foreign,
    ((segmentsOf_iff_spells single_small).2.1 foreign).1⟩
  rw [padded_bounded, segmentsOf_eq_ok_iff.1 padded_read, unbounded_some]

end SourceMap
end Shakedown
