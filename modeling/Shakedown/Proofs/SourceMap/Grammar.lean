import Shakedown.Proofs.SourceMap.Numerals
import Shakedown.Proofs.SourceMap.RoundTrip

/-!
# The grammar of mappings

A text of mappings is read when what stands between its separators are groups of one, four or five
numerals, and the numbers of the groups up to each of them add up to values that fit into 32 bits.
The sums are taken over the groups themselves, without the running values of the reader: columns
over the groups of the line, the other fields over all groups.
-/

namespace Shakedown
namespace Mappings

instance (value : Int) : Decidable (IsWord value) :=
  inferInstanceAs (Decidable (_ ∧ _))

/-! ## Groups and their sums -/

/-- The numerals between two separators. -/
structure Group where
  /-- The line that they stand on. -/
  line : Nat
  /-- The numerals. -/
  numerals : List Vlq.Numeral

namespace Group

/-- The text of a group. -/
def text (group : Group) : List Char :=
  group.numerals.flatMap Vlq.Numeral.text

/-- The numbers of a group. -/
def numbers (group : Group) : List Int :=
  group.numerals.map Vlq.Numeral.value

/-- One of the numbers. A number that is left out changes nothing. -/
def field (group : Group) (index : Nat) : Int :=
  group.numbers.getD index 0

/-- There is a column, then an origin or none, then a name or none. -/
def IsComplete (group : Group) : Prop :=
  group.numerals.length = 1 ∨ group.numerals.length = 4 ∨ group.numerals.length = 5

instance (group : Group) : Decidable group.IsComplete :=
  inferInstanceAs (Decidable (_ ∨ _))

end Group

/-- What one field adds up to. -/
def total (index : Nat) (groups : List Group) : Int :=
  (groups.map (·.field index)).sum

/-- What the fields add up to behind groups the last of which stands on `line`. -/
def totals (line : Nat) (groups : List Group) : Running where
  column := total 0 (groups.filter (·.line = line))
  source := total 1 groups
  originLine := total 2 groups
  originColumn := total 3 groups
  name := total 4 groups

/-- A group with the values behind it. -/
structure Reading where
  /-- The group. -/
  group : Group
  /-- What the fields add up to, this group included. -/
  values : Running

namespace Reading

/-- The values of all fields that the group has fit into 32 bits. -/
structure InRange (reading : Reading) : Prop where
  /-- The generated column fits. -/
  column : IsWord reading.values.column
  /-- The index of the source fits, if there is an origin. -/
  source : 4 ≤ reading.group.numerals.length → IsWord reading.values.source
  /-- The line of the origin fits. -/
  originLine : 4 ≤ reading.group.numerals.length → IsWord reading.values.originLine
  /-- The column of the origin fits. -/
  originColumn : 4 ≤ reading.group.numerals.length → IsWord reading.values.originColumn
  /-- The index of the name fits, if there is one. -/
  name : 5 ≤ reading.group.numerals.length → IsWord reading.values.name

/-- The segment of a group: the values behind it, of the fields that it has. -/
def segment (reading : Reading) : Segment where
  generated := ⟨reading.group.line, reading.values.column.toNat⟩
  origin :=
    if reading.group.numerals.length < 4 then none
    else some
      { source := reading.values.source.toNat
        position := ⟨reading.values.originLine.toNat, reading.values.originColumn.toNat⟩
        name :=
          if reading.group.numerals.length < 5 then none else some reading.values.name.toNat }

end Reading

/-- The groups behind `front`, each with the values behind it. -/
def readings (front groups : List Group) : List Reading :=
  groups.mapIdx fun index group =>
    ⟨group, totals group.line (front ++ groups.take (index + 1))⟩

/-- The texts between the separators of lines, empty ones left out, each with its line. -/
def parts (line : Nat) (lines : List (List Char)) : List (Nat × List Char) :=
  (lines.zipIdx line).flatMap fun (text, line) =>
    ((text.splitOn ',').filter (!·.isEmpty)).map (line, ·)

/-- The texts stand for `groups` behind those in `front`. -/
structure Parses (front : List Group) (texts : List (Nat × List Char)) (groups : List Group) :
    Prop where
  /-- Each text is that of a group, on its line. -/
  texts : texts = groups.map fun group => (group.line, group.text)
  /-- Each group has one, four or five numbers. -/
  complete : ∀ group ∈ groups, group.IsComplete
  /-- All values fit, those of a line from its start and the others from the first line on. -/
  inRange : ∀ reading ∈ readings front groups, reading.InRange

/-- A text of mappings stands for `groups`. -/
def Spells (text : String) (groups : List Group) : Prop :=
  Parses [] (parts 0 (text.toList.splitOn ';')) groups

/-! ## Sums over one more group -/

@[simp]
theorem total_append (index : Nat) (front groups : List Group) :
    total index (front ++ groups) = total index front + total index groups := by
  simp [total]

@[simp]
theorem total_singleton (index : Nat) (group : Group) :
    total index [group] = group.field index := by
  simp [total]

/-- The values behind one more group. -/
def add (running : Running) (group : Group) : Running where
  column := running.column + group.field 0
  source := running.source + group.field 1
  originLine := running.originLine + group.field 2
  originColumn := running.originColumn + group.field 3
  name := running.name + group.field 4

theorem totals_append_singleton (front : List Group) (group : Group) :
    totals group.line (front ++ [group]) = add (totals group.line front) group := by
  simp [totals, add, List.filter_append]

/-- On a line behind all groups the column is counted anew. -/
theorem newLine_totals {groups : List Group} (line : Nat) {next : Nat}
    (before : ∀ group ∈ groups, group.line < next) :
    (totals line groups).newLine = totals next groups := by
  have none_here : groups.filter (·.line = next) = [] := by
    rw [List.filter_eq_nil_iff]
    intro group member
    have := before group member
    simp only [decide_eq_true_eq]
    omega
  simp [Running.newLine, totals, none_here, total]

@[simp]
theorem readings_nil (front : List Group) : readings front [] = [] := rfl

@[simp]
theorem readings_cons (front : List Group) (group : Group) (groups : List Group) :
    readings front (group :: groups) =
      ⟨group, totals group.line (front ++ [group])⟩ :: readings (front ++ [group]) groups := by
  simp [readings, List.mapIdx_cons]

theorem readings_append (front here behind : List Group) :
    readings front (here ++ behind) = readings front here ++ readings (front ++ here) behind := by
  induction here generalizing front with
  | nil => simp
  | cons group here ih => simp [ih]

/-! ## One group -/

theorem bind_word?_eq_some_iff {α : Type} {value : Int} {next : Nat → Option α} {result : α} :
    (word? value).bind next = some result ↔ IsWord value ∧ next value.toNat = some result := by
  unfold word? IsWord
  split <;> simp [*]

namespace Reading

theorem inRange_iff {reading : Reading} :
    reading.InRange ↔ IsWord reading.values.column ∧
      (4 ≤ reading.group.numerals.length → IsWord reading.values.originLine ∧
        IsWord reading.values.originColumn ∧ IsWord reading.values.source) ∧
      (5 ≤ reading.group.numerals.length → IsWord reading.values.name) := by
  constructor
  · rintro ⟨column, source, originLine, originColumn, name⟩
    exact ⟨column, fun four => ⟨originLine four, originColumn four, source four⟩, name⟩
  · rintro ⟨column, origin, name⟩
    exact ⟨column, fun four => (origin four).2.2, fun four => (origin four).1,
      fun four => (origin four).2.1, name⟩

instance (reading : Reading) : Decidable reading.InRange :=
  decidable_of_iff _ inRange_iff.symm

end Reading

/-- A list of numbers is a segment when there are as many as in one and the values behind it fit. -/
theorem segment?_numbers_eq_some_iff (group : Group) (small : group.line < 4294967296)
    {running : Running} {segment : Segment} {after : Running} :
    segment? group.line running group.numbers = some (segment, after) ↔
      group.IsComplete ∧ after = add running group ∧
      Reading.InRange ⟨group, after⟩ ∧ segment = Reading.segment ⟨group, after⟩ := by
  obtain ⟨line, numerals⟩ := group
  have line_word : IsWord (line : Int) := isWord_natCast small
  -- The reader looks no further than at a sixth number.
  rcases numerals with _ | ⟨column, _ | ⟨source, _ | ⟨originLine, _ | ⟨originColumn, _ |
    ⟨name, _ | ⟨sixth, further⟩⟩⟩⟩⟩⟩
  case nil | cons.cons.nil | cons.cons.cons.nil | cons.cons.cons.cons.cons.cons =>
    simp [segment?, Group.numbers, Group.IsComplete]
  case cons.nil | cons.cons.cons.cons.nil | cons.cons.cons.cons.cons.nil =>
    simp only [segment?, Group.numbers, List.map_cons, List.map_nil, Option.bind_eq_bind,
      bind_word?_eq_some_iff, line_word, true_and, Group.IsComplete, Reading.inRange_iff,
      Reading.segment, add, Group.field, Int.toNat_natCast]
    grind

/-! ## Groups behind one another -/

theorem parses_nil_iff {front groups : List Group} : Parses front [] groups ↔ groups = [] := by
  constructor
  · intro parses
    exact List.map_eq_nil_iff.1 parses.texts.symm
  · rintro rfl
    exact ⟨rfl, by simp, by simp⟩

theorem parses_append_iff {front groups : List Group} {here behind : List (Nat × List Char)} :
    Parses front (here ++ behind) groups ↔
      ∃ first others, groups = first ++ others ∧ Parses front here first ∧
        Parses (front ++ first) behind others := by
  constructor
  · rintro ⟨texts, complete, inRange⟩
    obtain ⟨first, others, rfl, here_eq, behind_eq⟩ := List.append_eq_map_iff.1 texts
    rw [List.forall_mem_append] at complete
    rw [readings_append, List.forall_mem_append] at inRange
    exact ⟨first, others, rfl, ⟨here_eq.symm, complete.1, inRange.1⟩,
      ⟨behind_eq.symm, complete.2, inRange.2⟩⟩
  · rintro ⟨first, others, rfl, here_parses, behind_parses⟩
    refine ⟨?_, ?_, ?_⟩
    · rw [here_parses.texts, behind_parses.texts, List.map_append]
    · exact List.forall_mem_append.2 ⟨here_parses.complete, behind_parses.complete⟩
    · rw [readings_append]
      exact List.forall_mem_append.2 ⟨here_parses.inRange, behind_parses.inRange⟩

theorem parses_singleton_iff {front groups : List Group} {text : Nat × List Char} :
    Parses front [text] groups ↔
      ∃ group, groups = [group] ∧ text = (group.line, group.text) ∧ group.IsComplete ∧
        Reading.InRange ⟨group, totals group.line (front ++ [group])⟩ := by
  constructor
  · rintro ⟨texts, complete, inRange⟩
    obtain ⟨group, rfl, text_eq⟩ := List.map_eq_singleton_iff.1 texts.symm
    exact ⟨group, rfl, text_eq.symm, by simpa using complete, by simpa using inRange⟩
  · rintro ⟨group, rfl, rfl, complete, inRange⟩
    exact ⟨rfl, by simpa using complete, by simpa using inRange⟩

/-- The reader of a line keeps the values that the groups up to where it stands add up to. -/
theorem decodeGroups_eq_some_iff {line : Nat} (small : line < 4294967296) {front : List Group}
    {texts : List (List Char)} {segments : List Segment} {after : Running} :
    decodeGroups line (totals line front) texts = some (segments, after) ↔
      ∃ groups, Parses front (texts.map (line, ·)) groups ∧
        segments = (readings front groups).map Reading.segment ∧
        after = totals line (front ++ groups) := by
  induction texts generalizing front segments after with
  | nil =>
      simp [decodeGroups, parses_nil_iff, eq_comm]
  | cons text texts ih =>
      simp only [decodeGroups, Option.bind_eq_bind, Option.bind_eq_some_iff]
      rw [List.map_cons, ← List.singleton_append]
      constructor
      · rintro ⟨numbers, text_eq, ⟨segment, next⟩, segment_eq, ⟨others, last⟩, others_eq, same⟩
        obtain ⟨rfl, rfl⟩ := Prod.mk.inj (Option.some.inj same)
        obtain ⟨numerals, rfl, rfl⟩ := Vlq.decode_eq_some_iff.1 text_eq
        let group : Group := ⟨line, numerals⟩
        obtain ⟨complete, next_eq, inRange, rfl⟩ :=
          (segment?_numbers_eq_some_iff group small).1 segment_eq
        obtain rfl := next_eq.trans (totals_append_singleton front group).symm
        obtain ⟨groups, parses, rfl, rfl⟩ := ih.1 others_eq
        have first : Parses front [(line, group.text)] [group] :=
          parses_singleton_iff.2 ⟨group, rfl, rfl, complete, inRange⟩
        exact ⟨[group] ++ groups, parses_append_iff.2 ⟨[group], groups, rfl, first, parses⟩,
          by simp, by simp⟩
      · rintro ⟨_, parses, rfl, rfl⟩
        obtain ⟨_, groups, rfl, first, others⟩ := parses_append_iff.1 parses
        obtain ⟨group, rfl, text_eq, complete, inRange⟩ := parses_singleton_iff.1 first
        obtain ⟨rfl, rfl⟩ := Prod.mk.inj text_eq
        have numbers_eq : Vlq.decode group.text = some group.numbers :=
          Vlq.decode_eq_some_iff.2 ⟨group.numerals, rfl, rfl⟩
        have group_eq := (segment?_numbers_eq_some_iff group small).2
          ⟨complete, totals_append_singleton front group, inRange, rfl⟩
        have others_eq := ih.2 ⟨groups, others, rfl, rfl⟩
        refine ⟨group.numbers, numbers_eq, _, group_eq, _, others_eq, ?_⟩
        simp

/-! ## Lines -/

theorem splitAt_eq_splitOn (separator : Char) (text : List Char) :
    splitAt separator text = text.splitOn separator := by
  induction text with
  | nil => rfl
  | cons char rest ih =>
      obtain ⟨part, others, rest_eq⟩ :=
        List.exists_cons_of_ne_nil (List.splitOn_ne_nil separator rest)
      rw [splitAt, List.splitOn_cons_eq_if_modifyHead, ih, rest_eq]
      simp

theorem length_splitAt_le (separator : Char) (text : List Char) :
    (splitAt separator text).length ≤ Text.width text + 1 := by
  induction text with
  | nil => simp [splitAt]
  | cons char rest ih =>
      have wide := char.utf8Size_pos
      obtain ⟨part, others, rest_eq⟩ := List.exists_cons_of_ne_nil (splitAt_ne_nil separator rest)
      rw [rest_eq, List.length_cons] at ih
      rw [splitAt, rest_eq, Text.width]
      dsimp only
      split <;> simp only [List.length_cons] <;> omega

theorem parts_cons (line : Nat) (text : List Char) (lines : List (List Char)) :
    parts line (text :: lines) = (groups text).map (line, ·) ++ parts (line + 1) lines := by
  simp [parts, groups, splitAt_eq_splitOn, List.zipIdx_cons]

theorem Parses.line_eq {front groups : List Group} {line : Nat} {texts : List (List Char)}
    (parses : Parses front (texts.map (line, ·)) groups) : ∀ group ∈ groups, group.line = line := by
  intro group member
  have listed : (group.line, group.text) ∈ texts.map (line, ·) := by
    rw [parses.texts]
    exact List.mem_map_of_mem member
  obtain ⟨text, -, same⟩ := List.mem_map.1 listed
  exact (Prod.mk.inj same).1.symm

/-- The lines from `line` on are read as the groups that go on from those before. -/
theorem decodeLines_eq_some_iff {line : Nat} {front : List Group}
    (before : ∀ group ∈ front, group.line < line) {running : Running}
    (running_eq : running.newLine = totals line front) {lines : List (List Char)}
    (small : line + lines.length ≤ 4294967296) {segments : List Segment} :
    decodeLines line running lines = some segments ↔
      ∃ groups, Parses front (parts line lines) groups ∧
        segments = (readings front groups).map Reading.segment := by
  induction lines generalizing line front running segments with
  | nil =>
      simp [decodeLines, parts, parses_nil_iff, eq_comm]
  | cons text lines ih =>
      rw [List.length_cons] at small
      have behind {here : List Group} (here_line : ∀ group ∈ here, group.line = line) :
          ∀ group ∈ front ++ here, group.line < line + 1 := by
        intro group member
        rcases List.mem_append.1 member with member | member
        · have := before group member
          omega
        · have := here_line group member
          omega
      simp only [decodeLines, Option.bind_eq_bind, Option.bind_eq_some_iff, running_eq]
      rw [parts_cons]
      constructor
      · rintro ⟨⟨here, after⟩, here_eq, others, others_eq, same⟩
        obtain rfl := Option.some.inj same
        obtain ⟨first, first_parses, rfl, rfl⟩ := (decodeGroups_eq_some_iff (by omega)).1 here_eq
        have first_behind := behind first_parses.line_eq
        obtain ⟨rest, rest_parses, rfl⟩ :=
          (ih first_behind (newLine_totals line first_behind) (by omega)).1 others_eq
        have parses := parses_append_iff.2 ⟨first, rest, rfl, first_parses, rest_parses⟩
        refine ⟨first ++ rest, parses, ?_⟩
        rw [readings_append, List.map_append]
      · rintro ⟨_, parses, rfl⟩
        obtain ⟨first, rest, rfl, first_parses, rest_parses⟩ := parses_append_iff.1 parses
        have first_behind := behind first_parses.line_eq
        have here_eq := (decodeGroups_eq_some_iff (by omega)).2 ⟨first, first_parses, rfl, rfl⟩
        have others_eq := (ih first_behind (newLine_totals line first_behind) (by omega)).2
          ⟨rest, rest_parses, rfl⟩
        refine ⟨_, here_eq, _, others_eq, ?_⟩
        rw [readings_append, List.map_append]
        rfl

/-- A text of mappings is read when its parts are groups whose values fit, as the segments with
these values. -/
theorem decode_eq_some_iff {text : String} (small : Text.width text.toList < 4294967296)
    {segments : List Segment} :
    decode text = some segments ↔
      ∃ groups, Spells text groups ∧ segments = (readings [] groups).map Reading.segment := by
  have few := length_splitAt_le ';' text.toList
  rw [splitAt_eq_splitOn] at few
  rw [decode, splitAt_eq_splitOn]
  exact decodeLines_eq_some_iff (by simp) rfl (by omega)

end Mappings
end Shakedown
