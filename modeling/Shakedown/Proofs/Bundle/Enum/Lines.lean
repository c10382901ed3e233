import Mathlib.Tactic.Simproc.ExistsAndEq
import Shakedown.Bundle.Enum
import Shakedown.Proofs.Bundle.Enum.Keyword

/-!
# The lines of an enum

What the rule for enums that are filled line by line looks for, said without its patterns: a head, lines
that number members, a line that names the number of its own member, and more lines that name numbers.
The rule finds where such lines end.
-/

namespace Shakedown
namespace Enum

/-! ## What the rule looks for -/

/-- The declaration of a name with an empty object. -/
def IsPlainHead (name text : List Char) : Prop :=
  name ≠ [] ∧ IsVisible name ∧ ∃ last, Pattern.IsLineBreak last ∧
    text = "var ".toList ++ (name ++ (" = \x7b\x7d;".toList ++ last))

/-- A line that numbers a member. -/
def IsMemberLine (name text : List Char) : Prop :=
  ∃ member number last : List Char, (member ≠ [] ∧ IsVisible member) ∧
    (number ≠ [] ∧ ∀ char ∈ number, CharClass.isDigit char) ∧ Pattern.IsLineBreak last ∧
    text = name ++ ('.' :: (member ++ (" = ".toList ++ (number ++ (';' :: last)))))

/-- A statement that names the number of a member. -/
def IsLookup (name member spelling text : List Char) : Prop :=
  (member ≠ [] ∧ IsVisible member) ∧ (spelling ≠ [] ∧ IsVisible spelling) ∧
    text = name ++ ('[' :: (name ++ ('.' :: (member ++ ("] = \"".toList ++ (spelling ++ "\";".toList))))))

/-- A line that names the number of a member by the member itself. -/
def IsFirstLookupLine (name text : List Char) : Prop :=
  ∃ member statement last, IsLookup name member member statement ∧ Pattern.IsLineBreak last ∧
    text = statement ++ last

/-- A line that names the number of a member, with line feeds behind it, if any. -/
def IsLookupLine (name text : List Char) : Prop :=
  ∃ member spelling statement back feeds : List Char, IsLookup name member spelling statement ∧
    (back = [] ∨ back = ['\r']) ∧ (∀ char ∈ feeds, char = '\n') ∧ text = statement ++ (back ++ feeds)

/-- The lines behind the head of an enum. -/
def IsPlainBody (name body : List Char) : Prop :=
  ∃ (members : List (List Char)) (first : List Char) (lookups : List (List Char)),
    (members ≠ [] ∧ ∀ line ∈ members, IsMemberLine name line) ∧ IsFirstLookupLine name first ∧
    (lookups ≠ [] ∧ ∀ line ∈ lookups, IsLookupLine name line) ∧
    body = members.flatten ++ (first ++ lookups.flatten)

section Takes

variable {name before text rest : List Char} {groups noted : Groups}

open Pattern hiding some

theorem takes_plainHead :
    plainHead.Takes before text rest [] noted ↔ ∃ name, IsPlainHead name text ∧ noted = [(1, name)] := by
  simp only [plainHead, takes_all_cons, takes_all_nil, takes_literal, takes_group, visible, takes_some_one,
    takes_lineBreak, IsPlainHead, IsVisible, and_assoc, existsAndEq, true_and, List.append_nil]
  constructor
  · rintro ⟨name, last, rfl, filled, visible, line_break, rfl⟩
    exact ⟨name, filled, visible, ⟨last, line_break, rfl⟩, rfl⟩
  · rintro ⟨name, filled, visible, ⟨last, line_break, rfl⟩, rfl⟩
    exact ⟨name, last, rfl, filled, visible, line_break, rfl⟩

theorem takes_memberLine :
    (memberLine name).Takes before text rest groups noted ↔ IsMemberLine name text ∧ noted = groups := by
  simp only [memberLine, takes_all_cons, takes_all_nil, takes_literal, visible, takes_some_one, digits,
    takes_lineBreak, IsMemberLine, IsVisible, and_assoc, existsAndEq, true_and, List.append_nil]
  constructor
  · rintro ⟨member, number, last, rfl, filled, visible, numbered, digits, line_break, rfl⟩
    exact ⟨⟨member, number, last, filled, visible, numbered, digits, line_break, by simp⟩, rfl⟩
  · rintro ⟨⟨member, number, last, filled, visible, numbered, digits, line_break, rfl⟩, rfl⟩
    exact ⟨member, number, last, by simp, filled, visible, numbered, digits, line_break, rfl⟩

theorem takes_lookupStart :
    (lookupStart name).Takes before text rest groups noted ↔ ∃ member spelling,
      IsLookup name member spelling text ∧ noted = (2, spelling) :: (1, member) :: groups := by
  simp only [lookupStart, quoted, takes_all_cons, takes_all_nil, takes_literal, takes_group, visible,
    takes_some_one, IsLookup, IsVisible, and_assoc, existsAndEq, true_and, List.append_nil]
  constructor
  · rintro ⟨member, spelling, rfl, filled, visible, spelled, spelling_visible, rfl⟩
    exact ⟨member, spelling, filled, visible, spelled, spelling_visible, by simp, rfl⟩
  · rintro ⟨member, spelling, filled, visible, spelled, spelling_visible, rfl, rfl⟩
    exact ⟨member, spelling, by simp, filled, visible, spelled, spelling_visible, rfl⟩

theorem takes_firstLookupLine :
    (firstLookupLine name).Takes before text rest groups noted ↔ ∃ member spelling statement last,
      IsLookup name member spelling statement ∧ Pattern.IsLineBreak last ∧ text = statement ++ last ∧
        noted = (2, spelling) :: (1, member) :: groups := by
  simp only [firstLookupLine, takes_seq, takes_lookupStart, takes_lineBreak]
  constructor
  · rintro ⟨statement, last, between, rfl, ⟨member, spelling, lookup, rfl⟩, line_break, rfl⟩
    exact ⟨member, spelling, statement, last, lookup, line_break, rfl, rfl⟩
  · rintro ⟨member, spelling, statement, last, lookup, line_break, rfl, rfl⟩
    exact ⟨statement, last, _, rfl, ⟨member, spelling, lookup, rfl⟩, line_break, rfl⟩

theorem takes_lookupLine :
    (∃ noted, (lookupLine name).Takes before text rest groups noted) ↔ IsLookupLine name text := by
  simp only [lookupLine, takes_all_cons, takes_all_nil, takes_lookupStart, Pattern.optional, takes_choice,
    takes_one, takes_empty, takes_many_one, IsLookupLine, beq_iff_eq]
  constructor
  · rintro ⟨noted, statement, _, _, rfl, ⟨member, spelling, lookup, rfl⟩, back, _, _, rfl, taken, feeds, _, _,
      rfl, ⟨fed, rfl⟩, rfl, rfl⟩
    refine ⟨member, spelling, statement, back, feeds, lookup, ?_, fed, by simp⟩
    obtain ⟨⟨char, rfl, rfl⟩, -⟩ | ⟨rfl, -⟩ := taken
    · exact .inr rfl
    · exact .inl rfl
  · rintro ⟨member, spelling, statement, back, feeds, lookup, taken, fed, rfl⟩
    refine ⟨(2, spelling) :: (1, member) :: groups, statement, back ++ feeds, _, rfl,
      ⟨member, spelling, lookup, rfl⟩, back, feeds, _, rfl, ?_, feeds, [], _, by simp, ⟨fed, rfl⟩, rfl, rfl⟩
    obtain rfl | rfl := taken
    · exact .inr ⟨rfl, rfl⟩
    · exact .inl ⟨⟨'\r', rfl, rfl⟩, rfl⟩

end Takes

/-! ## Lines one behind the other -/

section Rows

variable {pattern : Pattern} {IsLine : List Char → Prop} {rest : List Char} {cursor : Cursor}
  {rounds : Nat}

/-- What matches in a row is lines, and behind them nothing matches. -/
theorem exists_lines_of_matchesInARow (pattern : Pattern) (cursor : Cursor)
    (reads : ∀ {before text rest noted}, pattern.Takes before text rest [] noted → IsLine text)
    (filled : ∀ {line}, IsLine line → line ≠ []) (enough : cursor.after.length ≤ rounds) :
    ∃ lines : List (List Char), lines.length = (matchesInARow pattern rounds cursor).1 ∧
      (∀ line ∈ lines, IsLine line) ∧
      cursor.after = lines.flatten ++ (matchesInARow pattern rounds cursor).2.after ∧
      (matchesInARow pattern rounds cursor).2.before = lines.flatten.reverse ++ cursor.before ∧
      pattern.matchAt? (matchesInARow pattern rounds cursor).2 = none := by
  induction rounds generalizing cursor with
  | zero =>
      obtain ⟨before, after⟩ := cursor
      obtain rfl : after = [] := List.eq_nil_of_length_eq_zero (Nat.le_zero.1 enough)
      refine ⟨[], rfl, by simp, rfl, rfl, ?_⟩
      apply Option.eq_none_iff_forall_not_mem.2
      intro found matched
      obtain ⟨after_eq, taken⟩ := Pattern.takes_of_matchAt? matched
      exact filled (reads taken) (List.append_eq_nil_iff.1 after_eq.symm).1
  | succ rounds ih =>
      obtain ⟨before, after⟩ := cursor
      rw [matchesInARow]
      cases matched : pattern.matchAt? ⟨before, after⟩ with
      | none => exact ⟨[], rfl, by simp, rfl, rfl, matched⟩
      | some found =>
          obtain ⟨after_eq, taken⟩ := Pattern.takes_of_matchAt? matched
          have line := reads taken
          have before_eq := (Pattern.after_eq_of_matchAt? matched).2
          have shorter : found.stop.after.length ≤ rounds := by
            have := List.length_pos_iff.2 (filled line)
            have := congrArg List.length after_eq
            rw [List.length_append] at this
            simp only at enough
            omega
          obtain ⟨lines, count_eq, all_lines, rest_eq, stop_eq, unmatched⟩ := ih _ shorter
          refine ⟨found.text :: lines, by simp [count_eq], List.forall_mem_cons.2 ⟨line, all_lines⟩, ?_, ?_,
            unmatched⟩
          · rw [List.flatten_cons, List.append_assoc, ← rest_eq]
            exact after_eq
          · rw [List.flatten_cons, List.reverse_append, List.append_assoc, ← before_eq]
            exact stop_eq

/-- Lines that are determined by the text match in a row, as far as they go. -/
theorem matchesInARow_eq (pattern : Pattern) (before : List Char)
    (reads : ∀ {before text rest noted}, pattern.Takes before text rest [] noted → IsLine text)
    (takes : ∀ {before line} rest, IsLine line → ∃ noted, pattern.Takes before line rest [] noted)
    (filled : ∀ {line}, IsLine line → line ≠ [])
    (line_inj : ∀ {line line' rest rest'}, IsLine line → IsLine line' → line ++ rest = line' ++ rest' →
      line = line')
    {lines : List (List Char)} (all_lines : ∀ line ∈ lines, IsLine line)
    (last : ∀ line rest', IsLine line → rest ≠ line ++ rest')
    (enough : (lines.flatten ++ rest).length ≤ rounds) :
    matchesInARow pattern rounds ⟨before, lines.flatten ++ rest⟩ =
      (lines.length, ⟨lines.flatten.reverse ++ before, rest⟩) := by
  induction rounds generalizing before lines with
  | zero =>
      have empty := List.eq_nil_of_length_eq_zero (Nat.le_zero.1 enough)
      obtain ⟨lines_empty, rfl⟩ := List.append_eq_nil_iff.1 empty
      cases lines with
      | nil => rfl
      | cons line lines =>
          have line_empty : line = [] := (List.append_eq_nil_iff.1 lines_empty).1
          exact absurd line_empty (filled (all_lines line List.mem_cons_self))
  | succ rounds ih =>
      rw [matchesInARow]
      cases lines with
      | nil =>
          have unmatched : pattern.matchAt? ⟨before, rest⟩ = none := by
            apply Option.eq_none_iff_forall_not_mem.2
            intro found matched
            obtain ⟨rest_eq, taken⟩ := Pattern.takes_of_matchAt? matched
            exact last _ _ (reads taken) rest_eq
          simp [unmatched]
      | cons line lines =>
          obtain ⟨is_line, others⟩ := List.forall_mem_cons.1 all_lines
          rw [List.flatten_cons, List.append_assoc] at enough ⊢
          obtain ⟨noted, taken⟩ := @takes before line (lines.flatten ++ rest) is_line
          obtain ⟨found, matched, after_eq, found_taken⟩ := Pattern.exists_match_of_takes taken
          have text_eq : line = found.text := line_inj is_line (reads found_taken) after_eq
          have stop_eq : found.stop = ⟨line.reverse ++ before, lines.flatten ++ rest⟩ := by
            apply Cursor.eq_of_parts
            · rw [(Pattern.after_eq_of_matchAt? matched).2, text_eq]
            · rw [text_eq] at after_eq
              exact (List.append_cancel_left after_eq).symm
          have shorter : (lines.flatten ++ rest).length ≤ rounds := by
            have := List.length_pos_iff.2 (filled is_line)
            rw [List.length_append] at enough
            omega
          simp [matched, stop_eq, ih _ others shorter]

theorem matchesInARow_ne_zero (matched : pattern.matchAt? cursor ≠ none) (enough : 0 < rounds) :
    (matchesInARow pattern rounds cursor).1 ≠ 0 := by
  obtain ⟨found, matched⟩ := Option.ne_none_iff_exists'.1 matched
  cases rounds with
  | zero => contradiction
  | succ rounds => simp [matchesInARow, matched]

end Rows

/-! ## Where the lines of an enum end -/

section Lines

variable {name name' line line' rest rest' : List Char}

theorem IsPlainHead.append_inj {head head' : List Char} (is_head : IsPlainHead name head)
    (is_head' : IsPlainHead name' head') (same : head ++ rest = head' ++ rest') :
    name = name' ∧ head = head' ∧ rest = rest' := by
  obtain ⟨-, visible, last, line_break, rfl⟩ := is_head
  obtain ⟨-, visible', last', line_break', rfl⟩ := is_head'
  simp only [List.append_assoc] at same
  have named := List.append_cancel_left same
  obtain ⟨rfl, -, behind⟩ := visible.append_cons_inj visible' (by decide) (by decide) named
  have ended : last ++ rest = last' ++ rest' := List.append_cancel_left behind
  obtain rfl := isLineBreak_append_inj line_break line_break' ended
  exact ⟨rfl, rfl, List.append_cancel_left ended⟩

theorem IsMemberLine.ne_nil (is_line : IsMemberLine name line) : line ≠ [] := by
  obtain ⟨member, number, last, -, -, -, rfl⟩ := is_line
  simp

theorem IsLookup.ne_nil {member spelling : List Char} (lookup : IsLookup name member spelling line) :
    line ≠ [] := by
  obtain ⟨-, -, rfl⟩ := lookup
  simp

theorem IsLookupLine.ne_nil (is_line : IsLookupLine name line) : line ≠ [] := by
  obtain ⟨member, spelling, statement, back, feeds, lookup, -, -, rfl⟩ := is_line
  exact List.append_ne_nil_of_left_ne_nil lookup.ne_nil _

theorem IsMemberLine.append_inj (visible : IsVisible name) (is_line : IsMemberLine name line)
    (is_line' : IsMemberLine name line') (same : line ++ rest = line' ++ rest') : line = line' := by
  obtain ⟨member, number, last, ⟨-, member_visible⟩, ⟨-, digits⟩, line_break, rfl⟩ := is_line
  obtain ⟨member', number', last', ⟨-, member_visible'⟩, ⟨-, digits'⟩, line_break', rfl⟩ := is_line'
  have named : ∀ {member}, IsVisible member → IsVisible (name ++ '.' :: member) := fun member_visible =>
    visible.append (.cons member_visible (by decide))
  have numbered : ∀ {number : List Char}, (∀ char ∈ number, CharClass.isDigit char) → ';' ∉ number :=
    fun digits member => absurd (digits _ member) (by decide)
  have split : (name ++ '.' :: member) ++ ' ' :: ("= ".toList ++ (number ++ ';' :: (last ++ rest))) =
      (name ++ '.' :: member') ++ ' ' :: ("= ".toList ++ (number' ++ ';' :: (last' ++ rest'))) := by
    simpa using same
  obtain ⟨members_eq, -, behind⟩ := (named member_visible).append_cons_inj (named member_visible')
    (by decide) (by decide) split
  obtain ⟨-, rfl⟩ := List.cons_eq_cons.1 (List.append_cancel_left members_eq)
  obtain ⟨rfl, ended⟩ := Text.append_cons_inj (numbered digits) (numbered digits')
    (List.append_cancel_left behind)
  obtain rfl := isLineBreak_append_inj line_break line_break' ended
  rfl

/-- A statement that names a number is taken apart in one way. -/
theorem IsLookup.append_inj {member member' spelling spelling' statement statement' : List Char}
    {char char' : Char} (visible : IsVisible name) (lookup : IsLookup name member spelling statement)
    (lookup' : IsLookup name member' spelling' statement') (blank : CharClass.isBlank char)
    (blank' : CharClass.isBlank char')
    (same : statement ++ char :: rest = statement' ++ char' :: rest') :
    member = member' ∧ spelling = spelling' := by
  obtain ⟨⟨-, member_visible⟩, ⟨-, spelling_visible⟩, rfl⟩ := lookup
  obtain ⟨⟨-, member_visible'⟩, ⟨-, spelling_visible'⟩, rfl⟩ := lookup'
  have named : ∀ {member}, IsVisible member → IsVisible (name ++ '[' :: (name ++ '.' :: (member ++ [']']))) :=
    fun member_visible => visible.append (.cons (visible.append (.cons
      (member_visible.append (isVisible_of_all (by decide))) (by decide))) (by decide))
  have spelled : ∀ {spelling}, IsVisible spelling → IsVisible ('"' :: (spelling ++ "\";".toList)) :=
    fun spelling_visible => .cons
      (spelling_visible.append (isVisible_of_all (by decide))) (by decide)
  have split : (name ++ '[' :: (name ++ '.' :: (member ++ [']']))) ++ ' ' ::
        ("= ".toList ++ (('"' :: (spelling ++ "\";".toList)) ++ char :: rest)) =
      (name ++ '[' :: (name ++ '.' :: (member' ++ [']']))) ++ ' ' ::
        ("= ".toList ++ (('"' :: (spelling' ++ "\";".toList)) ++ char' :: rest')) := by
    simpa using same
  obtain ⟨members_eq, -, behind⟩ := (named member_visible).append_cons_inj (named member_visible')
    (by decide) (by decide) split
  obtain ⟨spellings_eq, -, -⟩ := (spelled spelling_visible).append_cons_inj (spelled spelling_visible')
    blank blank' (List.append_cancel_left behind)
  exact ⟨by simpa using members_eq, by simpa using spellings_eq⟩

end Lines

/-- What ends the lines of an enum. -/
theorem of_plainEnd? {name : List Char} {cursor stop : Cursor} (ended : plainEnd? name cursor = some stop) :
    ∃ body, IsPlainBody name body ∧ cursor.after = body ++ stop.after ∧
      stop.before = body.reverse ++ cursor.before ∧ (lookupLine name).matchAt? stop = none := by
  obtain ⟨members, count_eq, member_lines, after_eq, before_eq, -⟩ :=
    exists_lines_of_matchesInARow (memberLine name) cursor
      (fun taken => (takes_memberLine.1 taken).1) IsMemberLine.ne_nil (Nat.le_refl _)
  simp only [plainEnd?] at ended
  generalize matchesInARow (memberLine name) cursor.after.length cursor = row at *
  obtain ⟨count, middle⟩ := row
  simp only at *
  split at ended
  · contradiction
  rename_i some_members
  split at ended
  · contradiction
  rename_i first matched
  split at ended
  · contradiction
  rename_i same
  obtain ⟨middle_eq, taken⟩ := Pattern.takes_of_matchAt? matched
  obtain ⟨member, spelling, statement, last, lookup, line_break, text_eq, noted_eq⟩ :=
    takes_firstLookupLine.1 taken
  have spelled : member = spelling := by
    simpa [Match.group, noted_eq, List.lookup_cons] using same
  obtain ⟨lookups, lookups_count, lookup_lines, stop_eq, stop_before, unmatched⟩ :=
    exists_lines_of_matchesInARow (lookupLine name) first.stop
      (fun taken => takes_lookupLine.1 ⟨_, taken⟩) IsLookupLine.ne_nil (Nat.le_refl _)
  generalize matchesInARow (lookupLine name) first.stop.after.length first.stop = row at *
  obtain ⟨further, last_stop⟩ := row
  simp only at *
  split at ended
  · contradiction
  rename_i some_lookups
  obtain rfl := Option.some.inj ended
  have middle_before := (Pattern.after_eq_of_matchAt? matched).2
  have members_filled : members ≠ [] := by
    rintro rfl
    exact some_members count_eq.symm
  have lookups_filled : lookups ≠ [] := by
    rintro rfl
    exact some_lookups lookups_count.symm
  have first_line : IsFirstLookupLine name first.text :=
    ⟨member, statement, last, spelled ▸ lookup, line_break, text_eq⟩
  refine ⟨members.flatten ++ (first.text ++ lookups.flatten),
    ⟨members, first.text, lookups, ⟨members_filled, member_lines⟩, first_line,
      ⟨lookups_filled, lookup_lines⟩, rfl⟩, ?_, ?_, unmatched⟩
  · have middle_eq : middle.after = first.text ++ first.stop.after := middle_eq
    rw [after_eq, middle_eq, stop_eq, List.append_assoc, List.append_assoc]
  · rw [stop_before, middle_before, before_eq]
    simp

/-- The first line that names a number is taken apart in one way. -/
theorem IsFirstLookupLine.append_inj {name line rest member spelling statement last rest' : List Char}
    (visible : IsVisible name) (is_line : IsFirstLookupLine name line)
    (lookup : IsLookup name member spelling statement) (line_break : Pattern.IsLineBreak last)
    (same : line ++ rest = (statement ++ last) ++ rest') : member = spelling ∧ rest = rest' := by
  obtain ⟨own, own_statement, own_last, own_lookup, own_break, rfl⟩ := is_line
  obtain ⟨char, more, last_eq, blank, -⟩ := exists_cons_of_isLineBreak line_break
  obtain ⟨own_char, own_more, own_eq, own_blank, -⟩ := exists_cons_of_isLineBreak own_break
  have split : own_statement ++ own_char :: (own_more ++ rest) =
      statement ++ char :: (more ++ rest') := by
    simpa [last_eq, own_eq] using same
  obtain ⟨rfl, rfl⟩ := own_lookup.append_inj visible lookup own_blank blank split
  obtain ⟨-, -, rfl⟩ := own_lookup
  obtain ⟨-, -, rfl⟩ := lookup
  have ended : own_last ++ rest = last ++ rest' := by simpa using same
  obtain rfl := isLineBreak_append_inj own_break line_break ended
  exact ⟨rfl, List.append_cancel_left ended⟩

/-- The lines of an enum are found. -/
theorem plainEnd?_ne_none {name body before : List Char} (visible : IsVisible name)
    (is_body : IsPlainBody name body) (rest : List Char) :
    plainEnd? name ⟨before, body ++ rest⟩ ≠ none := by
  obtain ⟨members, first, lookups, ⟨members_filled, member_lines⟩, first_line, ⟨lookups_filled, lookup_lines⟩,
    rfl⟩ := is_body
  have not_member : ∀ line rest', IsMemberLine name line →
      first ++ (lookups.flatten ++ rest) ≠ line ++ rest' := by
    rintro line rest' ⟨member, number, last, -, -, -, rfl⟩ same
    obtain ⟨own, statement, own_last, ⟨-, -, rfl⟩, -, rfl⟩ := first_line
    simp only [List.append_assoc] at same
    exact absurd (List.cons_eq_cons.1 (List.append_cancel_left same)).1 (by decide)
  have row_eq := matchesInARow_eq (memberLine name) before
    (fun taken => (takes_memberLine.1 taken).1) (fun rest is_line => ⟨_, takes_memberLine.2 ⟨is_line, rfl⟩⟩)
    IsMemberLine.ne_nil (IsMemberLine.append_inj visible) member_lines not_member (Nat.le_refl _)
  have after_eq : members.flatten ++ (first ++ lookups.flatten) ++ rest =
      members.flatten ++ (first ++ (lookups.flatten ++ rest)) := by simp
  obtain ⟨found, matched, same_names, stop_eq⟩ : ∃ found, (firstLookupLine name).matchAt?
      ⟨members.flatten.reverse ++ before, first ++ (lookups.flatten ++ rest)⟩ = some found ∧
      found.group 1 = found.group 2 ∧ found.stop.after = lookups.flatten ++ rest := by
    obtain ⟨own, statement, last, lookup, line_break, first_eq⟩ := id first_line
    have taken : (firstLookupLine name).Takes (members.flatten.reverse ++ before) first
        (lookups.flatten ++ rest) [] [(2, own), (1, own)] :=
      takes_firstLookupLine.2 ⟨own, own, statement, last, lookup, line_break, first_eq, rfl⟩
    obtain ⟨found, matched, found_eq, found_taken⟩ := Pattern.exists_match_of_takes taken
    obtain ⟨member, spelling, statement', last', lookup', line_break', text_eq, noted_eq⟩ :=
      takes_firstLookupLine.1 found_taken
    rw [text_eq] at found_eq
    obtain ⟨rfl, stop_eq⟩ := first_line.append_inj visible lookup' line_break' found_eq
    exact ⟨found, matched, by simp [Match.group, noted_eq, List.lookup_cons], stop_eq.symm⟩
  have more : (matchesInARow (lookupLine name) found.stop.after.length found.stop).1 ≠ 0 := by
    obtain ⟨line, others, rfl⟩ := List.exists_cons_of_ne_nil lookups_filled
    have is_line := lookup_lines line List.mem_cons_self
    obtain ⟨noted, taken⟩ : ∃ noted,
        (lookupLine name).Takes found.stop.before line (others.flatten ++ rest) [] noted :=
      takes_lookupLine.2 is_line
    have stands : found.stop = ⟨found.stop.before, line ++ (others.flatten ++ rest)⟩ :=
      Cursor.eq_of_parts rfl (by rw [stop_eq, List.flatten_cons, List.append_assoc])
    apply matchesInARow_ne_zero
    · rw [stands]
      exact Pattern.matchAt?_ne_none_of_takes taken
    · rw [stands, List.length_append]
      exact Nat.lt_add_right _ (List.length_pos_iff.2 is_line.ne_nil)
  have some_members : members.length ≠ 0 := fun empty => members_filled (List.eq_nil_of_length_eq_zero empty)
  rw [plainEnd?, after_eq, row_eq]
  simp [some_members, matched, same_names, more]

end Enum
end Shakedown
