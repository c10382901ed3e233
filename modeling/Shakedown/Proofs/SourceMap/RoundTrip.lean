import Shakedown.Proofs.SourceMap.Governing
import Shakedown.Proofs.SourceMap.Numbers
import Shakedown.SourceMap.Document

/-!
# Mappings survive their text

Segments in the order of their lines whose numbers fit into 32 bits are read back from the text
that is written for them, and reading never yields any others. Writer and reader keep the same
running values: what is to be read next is decided by the line, these values and the rest of the
text alone.
-/

namespace Shakedown

/-! ## Segments that can be written -/

/-- Both numbers of the place fit into 32 bits. -/
def Position.Fits (position : Position) : Prop :=
  position.line < 4294967296 ∧ position.column < 4294967296

instance (position : Position) : Decidable position.Fits :=
  inferInstanceAs (Decidable (_ ∧ _))

/-- All numbers of the origin fit into 32 bits. -/
structure Origin.Fits (origin : Origin) : Prop where
  /-- The index of the source fits. -/
  source : origin.source < 4294967296
  /-- The place in the source fits. -/
  position : origin.position.Fits
  /-- The index of the name fits, if there is one. -/
  name : ∀ name ∈ origin.name, name < 4294967296

instance (origin : Origin) : Decidable origin.Fits :=
  decidable_of_iff
    (origin.source < 4294967296 ∧ origin.position.Fits ∧ ∀ name ∈ origin.name, name < 4294967296)
    ⟨fun ⟨source, position, name⟩ => ⟨source, position, name⟩,
      fun fits => ⟨fits.source, fits.position, fits.name⟩⟩

/-- All numbers of the segment fit into 32 bits. -/
structure Segment.Fits (segment : Segment) : Prop where
  /-- The generated place fits. -/
  generated : segment.generated.Fits
  /-- The origin fits, if there is one. -/
  origin : ∀ origin ∈ segment.origin, origin.Fits

instance (segment : Segment) : Decidable segment.Fits :=
  decidable_of_iff (segment.generated.Fits ∧ ∀ origin ∈ segment.origin, origin.Fits)
    ⟨fun ⟨generated, origin⟩ => ⟨generated, origin⟩, fun fits => ⟨fits.generated, fits.origin⟩⟩

/-- No segment stands on a line before that of an earlier one. -/
def LinesAscend (segments : List Segment) : Prop :=
  segments.Pairwise fun earlier later => earlier.generated.line ≤ later.generated.line

theorem linesAscend_of_pairwise_before {segments : List Segment}
    (ordered : segments.Pairwise fun earlier later =>
      earlier.generated.before later.generated) : LinesAscend segments := by
  refine List.Pairwise.imp (fun {earlier later} before => ?_) ordered
  rw [Position.before_iff] at before
  omega

namespace Mappings

/-- A running value that fits into 32 bits. -/
def IsWord (value : Int) : Prop :=
  0 ≤ value ∧ value < 4294967296

theorem isWord_natCast {value : Nat} (small : value < 4294967296) : IsWord value := by
  constructor <;> omega

theorem isWord_zero : IsWord 0 := isWord_natCast (by decide)

theorem word?_eq_some_iff {value : Int} {word : Nat} :
    word? value = some word ↔ (word : Int) = value ∧ word < 4294967296 := by
  unfold word?
  split
  · simp only [Option.some.injEq]
    omega
  · simp only [reduceCtorEq, false_iff]
    omega

theorem word?_natCast {value : Nat} (small : value < 4294967296) :
    word? (value : Int) = some value :=
  word?_eq_some_iff.2 ⟨rfl, small⟩

theorem short_sub {left right : Int} (left_word : IsWord left) (right_word : IsWord right) :
    Vlq.Short (left - right) := by
  obtain ⟨left_nonneg, left_lt⟩ := left_word
  obtain ⟨right_nonneg, right_lt⟩ := right_word
  exact Vlq.short_of_abs_lt (by omega) (by omega)

end Mappings

/-- All running values fit into 32 bits. -/
structure Running.Fits (running : Running) : Prop where
  /-- The generated column fits. -/
  column : Mappings.IsWord running.column
  /-- The index of the source fits. -/
  source : Mappings.IsWord running.source
  /-- The line of the origin fits. -/
  originLine : Mappings.IsWord running.originLine
  /-- The column of the origin fits. -/
  originColumn : Mappings.IsWord running.originColumn
  /-- The index of the name fits. -/
  name : Mappings.IsWord running.name

namespace Running

theorem fits_start : start.Fits := by
  constructor <;> exact Mappings.isWord_zero

theorem Fits.newLine {running : Running} (fits : running.Fits) : running.newLine.Fits :=
  ⟨Mappings.isWord_zero, fits.source, fits.originLine, fits.originColumn, fits.name⟩

@[simp]
theorem newLine_newLine (running : Running) : running.newLine.newLine = running.newLine := rfl

theorem Fits.step {running : Running} (fits : running.Fits) {segment : Segment}
    (segment_fits : segment.Fits) : (running.step segment).Fits := by
  obtain ⟨generated, origin⟩ := segment
  have column := Mappings.isWord_natCast segment_fits.generated.2
  cases origin with
  | none => exact ⟨column, fits.source, fits.originLine, fits.originColumn, fits.name⟩
  | some origin =>
      have origin_fits := segment_fits.origin origin rfl
      refine ⟨column, Mappings.isWord_natCast origin_fits.source,
        Mappings.isWord_natCast origin_fits.position.1,
        Mappings.isWord_natCast origin_fits.position.2, ?_⟩
      obtain ⟨source, position, name⟩ := origin
      cases name with
      | none => exact fits.name
      | some name => exact Mappings.isWord_natCast (origin_fits.name name rfl)

end Running

namespace Mappings

/-! ## One segment -/

theorem short_fields {running : Running} {segment : Segment} (running_fits : running.Fits)
    (fits : segment.Fits) : ∀ value ∈ fields running segment, Vlq.Short value := by
  obtain ⟨generated, origin⟩ := segment
  have column := short_sub (isWord_natCast fits.generated.2) running_fits.column
  cases origin with
  | none => simpa [fields] using column
  | some origin =>
      have origin_fits := fits.origin origin rfl
      have source := short_sub (isWord_natCast origin_fits.source) running_fits.source
      have line := short_sub (isWord_natCast origin_fits.position.1) running_fits.originLine
      have originColumn :=
        short_sub (isWord_natCast origin_fits.position.2) running_fits.originColumn
      obtain ⟨index, position, name⟩ := origin
      cases name with
      | none => simpa [fields] using ⟨column, source, line, originColumn⟩
      | some name =>
          have name_short := short_sub (isWord_natCast (origin_fits.name name rfl))
            running_fits.name
          simpa [fields] using ⟨column, source, line, originColumn, name_short⟩

private theorem add_sub_cancel_left (running value : Int) :
    running + (value - running) = value := by
  omega

/-- The reader finds the segment again in the numbers that the writer makes of it, and both go on
with the same running values. -/
theorem segment?_fields (running : Running) {segment : Segment} (fits : segment.Fits) :
    segment? segment.generated.line running (fields running segment) =
      some (segment, running.step segment) := by
  obtain ⟨⟨line, column⟩, origin⟩ := segment
  have line_eq := word?_natCast fits.generated.1
  have column_eq := word?_natCast fits.generated.2
  cases origin with
  | none =>
      simp only [fields, segment?, Running.step, add_sub_cancel_left] at *
      simp [line_eq, column_eq]
  | some origin =>
      have origin_fits := fits.origin origin rfl
      have source_eq := word?_natCast origin_fits.source
      have originLine_eq := word?_natCast origin_fits.position.1
      have originColumn_eq := word?_natCast origin_fits.position.2
      obtain ⟨source, position, name⟩ := origin
      cases name with
      | none =>
          simp only [fields, List.append_nil, segment?, Running.step, add_sub_cancel_left] at *
          simp [line_eq, column_eq, source_eq, originLine_eq, originColumn_eq]
      | some name =>
          have name_eq := word?_natCast (origin_fits.name name rfl)
          simp only [fields, List.cons_append, List.nil_append, segment?, Running.step,
            add_sub_cancel_left] at *
          simp [line_eq, column_eq, source_eq, originLine_eq, originColumn_eq, name_eq]

/-! ## The text as lines and groups -/

theorem splitAt_ne_nil (separator : Char) (text : List Char) : splitAt separator text ≠ [] := by
  cases text with
  | nil => simp [splitAt]
  | cons char rest =>
      rw [splitAt]
      split
      · simp
      · split <;> simp

@[simp]
theorem splitAt_separator_cons (separator : Char) (rest : List Char) :
    splitAt separator (separator :: rest) = [] :: splitAt separator rest := by
  rw [splitAt]
  cases split_eq : splitAt separator rest with
  | nil => exact absurd split_eq (splitAt_ne_nil separator rest)
  | cons part parts => simp

theorem splitAt_append {separator : Char} {front rest part : List Char}
    {parts : List (List Char)} (free : separator ∉ front)
    (split_eq : splitAt separator rest = part :: parts) :
    splitAt separator (front ++ rest) = (front ++ part) :: parts := by
  induction front with
  | nil => exact split_eq
  | cons char front ih =>
      have char_ne : char ≠ separator := fun same => free (by simp [same])
      rw [List.cons_append, splitAt, ih fun member => free (List.mem_cons_of_mem _ member)]
      simp [char_ne]

/-- The texts between the commas of a line, empty ones left out. -/
def groups (line : List Char) : List (List Char) :=
  (splitAt ',' line).filter (!·.isEmpty)

@[simp]
theorem groups_nil : groups [] = [] := rfl

@[simp]
theorem groups_comma_cons (line : List Char) : groups (',' :: line) = groups line := by
  simp [groups]

/-- A text that a segment may stand before: it is over or goes on with a separator. -/
def IsClosed : List Char → Prop
  | [] => True
  | char :: _ => char = ',' ∨ char = ';'

/-- The texts of the groups of a line that goes on with `rest`, and of the lines behind it. -/
theorem exists_groups_append {group rest : List Char} (group_ne_nil : group ≠ [])
    (comma_free : ',' ∉ group) (semicolon_free : ';' ∉ group) (closed : IsClosed rest) :
    ∃ line lines, splitAt ';' rest = line :: lines ∧
      splitAt ';' (group ++ rest) = (group ++ line) :: lines ∧
      groups (group ++ line) = group :: groups line := by
  obtain ⟨line, lines, rest_eq⟩ := List.exists_cons_of_ne_nil (splitAt_ne_nil ';' rest)
  refine ⟨line, lines, rest_eq, splitAt_append semicolon_free rest_eq, ?_⟩
  -- What follows the group on its line is nothing or begins with a comma.
  have opens : ∃ parts, splitAt ',' line = [] :: parts := by
    cases rest with
    | nil =>
        obtain ⟨rfl, rfl⟩ : line = [] ∧ lines = [] := by simpa [splitAt] using rest_eq.symm
        exact ⟨[], rfl⟩
    | cons char rest =>
        rcases closed with rfl | rfl
        · obtain ⟨line', lines', rest_eq'⟩ :=
            List.exists_cons_of_ne_nil (splitAt_ne_nil ';' rest)
          have comma_line : splitAt ';' ([','] ++ rest) = ([','] ++ line') :: lines' :=
            splitAt_append (by decide) rest_eq'
          obtain ⟨rfl, rfl⟩ : ',' :: line' = line ∧ lines' = lines := by
            simpa using comma_line.symm.trans rest_eq
          exact ⟨splitAt ',' line', splitAt_separator_cons ',' line'⟩
        · rw [splitAt_separator_cons] at rest_eq
          obtain ⟨rfl, rfl⟩ := List.cons.inj rest_eq
          exact ⟨[], rfl⟩
  obtain ⟨parts, line_eq⟩ := opens
  have group_filled : group.isEmpty = false := by simpa using group_ne_nil
  simp [groups, splitAt_append comma_free line_eq, line_eq, group_filled]

/-! ## Reading from the middle of a text -/

/-- The segments of a text that goes on inside `line`. -/
def decodeOnward (line : Nat) (running : Running) (text : List Char) : Option (List Segment) :=
  match splitAt ';' text with
  | [] => some []
  | first :: others => do
      let (segments, running) ← decodeGroups line running (groups first)
      return segments ++ (← decodeLines (line + 1) running others)

theorem decode_eq_decodeOnward (text : String) :
    decode text = decodeOnward 0 Running.start text.toList := by
  rw [decode, decodeOnward]
  cases splitAt ';' text.toList <;> rfl

theorem decodeOnward_nil (line : Nat) (running : Running) :
    decodeOnward line running [] = some [] := rfl

theorem decodeOnward_comma (line : Nat) (running : Running) (text : List Char) :
    decodeOnward line running (',' :: text) = decodeOnward line running text := by
  obtain ⟨first, others, split_eq⟩ := List.exists_cons_of_ne_nil (splitAt_ne_nil ';' text)
  have comma_split : splitAt ';' ([','] ++ text) = ([','] ++ first) :: others :=
    splitAt_append (by decide) split_eq
  rw [List.singleton_append] at comma_split
  simp [decodeOnward, comma_split, split_eq]

theorem decodeOnward_comma? (line : Nat) (running : Running) (omitted : Bool)
    (text : List Char) :
    decodeOnward line running ((if omitted then [] else [',']) ++ text) =
      decodeOnward line running text := by
  cases omitted with
  | false => exact decodeOnward_comma line running text
  | true => rfl

theorem decodeOnward_semicolon (line : Nat) (running : Running) (text : List Char) :
    decodeOnward line running (';' :: text) = decodeOnward (line + 1) running.newLine text := by
  obtain ⟨first, others, split_eq⟩ := List.exists_cons_of_ne_nil (splitAt_ne_nil ';' text)
  have next_line : decodeOnward (line + 1) running.newLine text =
      decodeLines (line + 1) running (first :: others) := by
    rw [decodeOnward, split_eq]
    rfl
  rw [next_line, decodeOnward, splitAt_separator_cons, split_eq]
  simp [decodeGroups]

theorem decodeOnward_semicolons (line count : Nat) (running : Running) (text : List Char) :
    decodeOnward line running (List.replicate count ';' ++ text) =
      decodeOnward (line + count) (if count = 0 then running else running.newLine) text := by
  induction count generalizing line running with
  | zero => rfl
  | succ count ih =>
      rw [List.replicate_succ, List.cons_append, decodeOnward_semicolon, ih]
      have line_eq : line + 1 + count = line + (count + 1) := by omega
      rw [line_eq, Running.newLine_newLine, ite_self, if_neg (Nat.succ_ne_zero count)]

theorem decodeOnward_group {line : Nat} {running running' : Running} {group rest : List Char}
    {numbers : List Int} {segment : Segment} (group_ne_nil : group ≠ [])
    (comma_free : ',' ∉ group) (semicolon_free : ';' ∉ group) (closed : IsClosed rest)
    (group_eq : Vlq.decode group = some numbers)
    (segment_eq : segment? line running numbers = some (segment, running')) :
    decodeOnward line running (group ++ rest) =
      (decodeOnward line running' rest).map (segment :: ·) := by
  obtain ⟨first, others, rest_eq, whole_eq, groups_eq⟩ :=
    exists_groups_append group_ne_nil comma_free semicolon_free closed
  simp only [decodeOnward, whole_eq, rest_eq, groups_eq, decodeGroups, group_eq, segment_eq,
    Option.bind_eq_bind, Option.bind_some]
  cases decodeGroups line running' (groups first) with
  | none => rfl
  | some read =>
      cases read_eq : decodeLines (line + 1) read.2 others <;> simp [read_eq]

/-! ## Reading what is written -/

theorem isClosed_encodeFrom (line : Nat) (running : Running) (segments : List Segment) :
    IsClosed (encodeFrom line false running segments) := by
  cases segments with
  | nil => trivial
  | cons segment rest =>
      rw [encodeFrom]
      cases segment.generated.line - line with
      | zero => simp [IsClosed]
      | succ skipped => simp [IsClosed, List.replicate_succ]

theorem not_mem_flatMap_encode {separator : Char} (foreign : separator ∉ Vlq.alphabet)
    (values : List Int) : separator ∉ values.flatMap Vlq.encode := by
  intro member
  obtain ⟨value, _, inside⟩ := List.mem_flatMap.1 member
  exact foreign (Vlq.mem_alphabet_of_mem_encode inside)

theorem flatMap_encode_fields_ne_nil (running : Running) (segment : Segment) :
    (fields running segment).flatMap Vlq.encode ≠ [] := by
  simp [fields, Vlq.encode_ne_nil]

/-- The text of a segment, with what follows it, is read as the segment and the rest. -/
theorem decodeOnward_segment {running : Running} {segment : Segment} {rest : List Char}
    (running_fits : running.Fits) (fits : segment.Fits) (closed : IsClosed rest) :
    decodeOnward segment.generated.line running
        ((fields running segment).flatMap Vlq.encode ++ rest) =
      (decodeOnward segment.generated.line (running.step segment) rest).map (segment :: ·) :=
  decodeOnward_group (flatMap_encode_fields_ne_nil running segment)
    (not_mem_flatMap_encode (by decide) _) (not_mem_flatMap_encode (by decide) _) closed
    (Vlq.decode_flatMap_encode (short_fields running_fits fits)) (segment?_fields running fits)

/-- Wherever writer and reader stand with the same running values, the reader finds all segments
that the writer still has to write. -/
theorem decodeOnward_encodeFrom {segments : List Segment} (ascend : LinesAscend segments)
    (fits : ∀ segment ∈ segments, segment.Fits) {line : Nat}
    (ahead : ∀ segment ∈ segments, line ≤ segment.generated.line) (opensLine : Bool)
    {running : Running} (running_fits : running.Fits) :
    decodeOnward line running (encodeFrom line opensLine running segments) = some segments := by
  induction segments generalizing line opensLine running with
  | nil => exact decodeOnward_nil line running
  | cons segment rest ih =>
      obtain ⟨first_le, rest_ascend⟩ := List.pairwise_cons.1 ascend
      have line_le : line ≤ segment.generated.line := ahead segment (by simp)
      have segment_fits : segment.Fits := fits segment (by simp)
      have line_eq : line + (segment.generated.line - line) = segment.generated.line := by omega
      rw [encodeFrom]
      generalize here_eq :
        (if segment.generated.line - line = 0 then running else running.newLine) = here
      have here_fits : here.Fits := by
        rw [← here_eq]
        split
        · exact running_fits
        · exact running_fits.newLine
      have remaining := ih rest_ascend (fun other member => fits other (by simp [member]))
        first_le false (here_fits.step segment_fits)
      simp only [List.append_assoc]
      rw [decodeOnward_semicolons, line_eq, here_eq, decodeOnward_comma?,
        decodeOnward_segment here_fits segment_fits (isClosed_encodeFrom _ _ _), remaining]
      rfl

theorem decode_encode {segments : List Segment} (ascend : LinesAscend segments)
    (fits : ∀ segment ∈ segments, segment.Fits) : decode (encode segments) = some segments := by
  rw [decode_eq_decodeOnward, encode, String.toList_ofList]
  exact decodeOnward_encodeFrom ascend fits (fun _ _ => Nat.zero_le _) true Running.fits_start

/-! ## What is read can be written -/

theorem fits_of_segment? {line : Nat} {running running' : Running} {numbers : List Int}
    {segment : Segment} (read : segment? line running numbers = some (segment, running')) :
    segment.generated.line = line ∧ segment.Fits := by
  unfold segment? at read
  split at read
  · simp only [Option.bind_eq_bind, Option.bind_eq_some_iff, word?_eq_some_iff] at read
    obtain ⟨line', ⟨line_eq, line_lt⟩, column, ⟨-, column_lt⟩, same⟩ := read
    obtain ⟨rfl, -⟩ := Prod.mk.inj (Option.some.inj same)
    exact ⟨Int.ofNat_inj.1 line_eq, ⟨line_lt, column_lt⟩, by simp⟩
  · simp only [Option.bind_eq_bind, Option.bind_eq_some_iff, word?_eq_some_iff] at read
    obtain ⟨line', ⟨line_eq, line_lt⟩, column, ⟨-, column_lt⟩, originLine, ⟨-, originLine_lt⟩,
      originColumn, ⟨-, originColumn_lt⟩, source, ⟨-, source_lt⟩, same⟩ := read
    obtain ⟨rfl, -⟩ := Prod.mk.inj (Option.some.inj same)
    refine ⟨Int.ofNat_inj.1 line_eq, ⟨line_lt, column_lt⟩, ?_⟩
    rintro origin ⟨⟩
    exact ⟨source_lt, ⟨originLine_lt, originColumn_lt⟩, by simp⟩
  · simp only [Option.bind_eq_bind, Option.bind_eq_some_iff, word?_eq_some_iff] at read
    obtain ⟨line', ⟨line_eq, line_lt⟩, column, ⟨-, column_lt⟩, originLine, ⟨-, originLine_lt⟩,
      originColumn, ⟨-, originColumn_lt⟩, source, ⟨-, source_lt⟩, name, ⟨-, name_lt⟩, same⟩ := read
    obtain ⟨rfl, -⟩ := Prod.mk.inj (Option.some.inj same)
    refine ⟨Int.ofNat_inj.1 line_eq, ⟨line_lt, column_lt⟩, ?_⟩
    rintro origin ⟨⟩
    refine ⟨source_lt, ⟨originLine_lt, originColumn_lt⟩, ?_⟩
    rintro index ⟨⟩
    exact name_lt
  · simp at read

theorem fits_of_decodeGroups {line : Nat} {running running' : Running}
    {groups : List (List Char)} {segments : List Segment}
    (read : decodeGroups line running groups = some (segments, running')) :
    ∀ segment ∈ segments, segment.generated.line = line ∧ segment.Fits := by
  induction groups generalizing running running' segments with
  | nil =>
      obtain ⟨rfl, -⟩ := Prod.mk.inj (Option.some.inj read)
      simp
  | cons group groups ih =>
      simp only [decodeGroups, Option.bind_eq_bind, Option.bind_eq_some_iff] at read
      obtain ⟨numbers, -, ⟨segment, after⟩, segment_eq, ⟨others, last⟩, others_eq, same⟩ := read
      obtain ⟨rfl, -⟩ := Prod.mk.inj (Option.some.inj same)
      intro other member
      rcases List.mem_cons.1 member with rfl | member
      · exact fits_of_segment? segment_eq
      · exact ih others_eq other member

/-- Lines are read one behind the other, so the segments stand in the order of their lines. -/
theorem fits_of_decodeLines {line : Nat} {running : Running} {texts : List (List Char)}
    {segments : List Segment} (read : decodeLines line running texts = some segments) :
    LinesAscend segments ∧
      ∀ segment ∈ segments, line ≤ segment.generated.line ∧ segment.Fits := by
  induction texts generalizing line running segments with
  | nil =>
      obtain rfl := Option.some.inj read
      exact ⟨.nil, by simp⟩
  | cons text texts ih =>
      simp only [decodeLines, Option.bind_eq_bind, Option.bind_eq_some_iff] at read
      obtain ⟨⟨here, after⟩, here_eq, others, others_eq, same⟩ := read
      obtain rfl := Option.some.inj same
      have here_fits := fits_of_decodeGroups here_eq
      obtain ⟨others_ascend, others_fit⟩ := ih others_eq
      constructor
      · refine List.pairwise_append.2 ⟨?_, others_ascend, ?_⟩
        · refine List.pairwise_of_forall_mem_list fun earlier earlier_mem later later_mem => ?_
          have := (here_fits earlier earlier_mem).1
          have := (here_fits later later_mem).1
          omega
        · intro earlier earlier_mem later later_mem
          have := (here_fits earlier earlier_mem).1
          have := (others_fit later later_mem).1
          omega
      · intro segment member
        rcases List.mem_append.1 member with member | member
        · obtain ⟨line_eq, fits⟩ := here_fits segment member
          exact ⟨by omega, fits⟩
        · obtain ⟨line_lt, fits⟩ := others_fit segment member
          exact ⟨by omega, fits⟩

theorem linesAscend_of_decode {text : String} {segments : List Segment}
    (read : decode text = some segments) : LinesAscend segments :=
  (fits_of_decodeLines read).1

theorem fits_of_decode {text : String} {segments : List Segment}
    (read : decode text = some segments) : ∀ segment ∈ segments, segment.Fits :=
  fun segment member => ((fits_of_decodeLines read).2 segment member).2

end Mappings

namespace SourceMap

theorem segmentsOf_eq_ok_iff {mappings : String} {segments : List Segment} :
    segmentsOf mappings = .ok segments ↔ Mappings.decode mappings = some segments := by
  unfold segmentsOf
  cases Mappings.decode mappings <;> simp

/-- Segments in the order of their lines survive being written and read, and so does everything
that is ever read. -/
theorem segmentsOf_encode :
    (∀ segments : List Segment, LinesAscend segments → (∀ segment ∈ segments, segment.Fits) →
      segmentsOf (Mappings.encode segments) = .ok segments) ∧
    ∀ (mappings : String) (segments : List Segment), segmentsOf mappings = .ok segments →
      segmentsOf (Mappings.encode segments) = .ok segments := by
  constructor
  · intro segments ascend fits
    exact segmentsOf_eq_ok_iff.2 (Mappings.decode_encode ascend fits)
  · intro mappings segments read
    have decoded := segmentsOf_eq_ok_iff.1 read
    exact segmentsOf_eq_ok_iff.2 (Mappings.decode_encode (Mappings.linesAscend_of_decode decoded)
      (Mappings.fits_of_decode decoded))

/-- Columns that run backwards, a skipped line, a segment without origin and differences of the
greatest size in both directions. -/
theorem segmentsOf_encode_extremes :
    segmentsOf (Mappings.encode
        [ ⟨⟨0, 4294967295⟩, some ⟨4294967295, ⟨4294967295, 0⟩, some 4294967295⟩⟩
        , ⟨⟨0, 0⟩, none⟩
        , ⟨⟨2, 7⟩, some ⟨0, ⟨0, 4294967295⟩, some 0⟩⟩
        , ⟨⟨2, 7⟩, some ⟨0, ⟨1, 4294967295⟩, none⟩⟩ ]) =
      .ok
        [ ⟨⟨0, 4294967295⟩, some ⟨4294967295, ⟨4294967295, 0⟩, some 4294967295⟩⟩
        , ⟨⟨0, 0⟩, none⟩
        , ⟨⟨2, 7⟩, some ⟨0, ⟨0, 4294967295⟩, some 0⟩⟩
        , ⟨⟨2, 7⟩, some ⟨0, ⟨1, 4294967295⟩, none⟩⟩ ] ∧
    segmentsOf ";,A,,CAAA" = .ok [⟨⟨1, 0⟩, none⟩, ⟨⟨1, 1⟩, some ⟨0, ⟨0, 0⟩, none⟩⟩] ∧
    segmentsOf (Mappings.encode [⟨⟨1, 0⟩, none⟩, ⟨⟨1, 1⟩, some ⟨0, ⟨0, 0⟩, none⟩⟩]) =
      .ok [⟨⟨1, 0⟩, none⟩, ⟨⟨1, 1⟩, some ⟨0, ⟨0, 0⟩, none⟩⟩] := by
  have read : segmentsOf ";,A,,CAAA" =
      .ok [⟨⟨1, 0⟩, none⟩, ⟨⟨1, 1⟩, some ⟨0, ⟨0, 0⟩, none⟩⟩] := by
    rfl
  refine ⟨segmentsOf_encode.1 _ ?_ (by decide), read, segmentsOf_encode.2 _ _ read⟩
  unfold LinesAscend
  decide

end SourceMap
end Shakedown
