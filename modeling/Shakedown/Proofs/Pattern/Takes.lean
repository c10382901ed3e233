import Shakedown.Proofs.Pattern.Search

/-!
# What a pattern takes

A way to match a pattern, said by the text that it takes. Every part of a pattern has a rule that
says which texts it takes, and a match is found where the pattern takes some text.
-/

namespace Shakedown
namespace Pattern

/-- The pattern takes `text`, which stands between `before` and `rest`, and notes its groups. -/
def Takes (pattern : Pattern) (before text rest : List Char) (groups noted : Groups) : Prop :=
  ((⟨text.reverse ++ before, rest⟩, noted) : Way) ∈ pattern.ways ⟨before, text ++ rest⟩ groups

variable {before text rest : List Char} {groups noted : Groups}

/-- Every way takes the text between its start and its end. -/
theorem exists_takes_of_mem_ways {pattern : Pattern} {after : List Char} {way : Way}
    (member : way ∈ pattern.ways ⟨before, after⟩ groups) :
    ∃ text rest, after = text ++ rest ∧ way = (⟨text.reverse ++ before, rest⟩, way.2) ∧
      pattern.Takes before text rest groups way.2 := by
  obtain ⟨count, stop_eq⟩ := exists_skip_of_mem_ways member
  have way_eq : way = (⟨(after.take count).reverse ++ before, after.drop count⟩, way.2) := by
    apply Prod.ext
    · rw [stop_eq]
      exact Cursor.eq_of_parts (Cursor.before_skip _ _) (Cursor.after_skip _ _)
    · rfl
  refine ⟨after.take count, after.drop count, (List.take_append_drop count after).symm, way_eq, ?_⟩
  rw [Takes, List.take_append_drop, ← way_eq]
  exact member

/-! ## Matches -/

/-- A match takes its text. -/
theorem takes_of_matchAt? {pattern : Pattern} {after : List Char} {found : Match}
    (matched : pattern.matchAt? ⟨before, after⟩ = Option.some found) :
    after = found.text ++ found.stop.after ∧
      pattern.Takes before found.text found.stop.after [] found.groups := by
  obtain ⟨after_eq, before_eq⟩ := after_eq_of_matchAt? matched
  rw [matchAt?_eq] at matched
  obtain ⟨way, first, found_eq⟩ := Option.map_eq_some_iff.1 matched
  have stop_eq : way.1 = found.stop := by rw [← found_eq]
  have groups_eq : way.2 = found.groups := by rw [← found_eq]
  have way_eq : way = (⟨found.text.reverse ++ before, found.stop.after⟩, found.groups) := by
    rw [← groups_eq]
    apply Prod.ext
    · rw [stop_eq]
      exact Cursor.eq_of_parts before_eq rfl
    · rfl
  have after_eq : after = found.text ++ found.stop.after := after_eq
  refine ⟨after_eq, ?_⟩
  rw [Takes, ← after_eq, ← way_eq]
  exact List.mem_of_mem_head? first

/-- Where a pattern takes a text, a match is found. -/
theorem matchAt?_ne_none_of_takes {pattern : Pattern}
    (takes : pattern.Takes before text rest [] noted) :
    pattern.matchAt? ⟨before, text ++ rest⟩ ≠ none := by
  intro unmatched
  rw [matchAt?_eq, Option.map_eq_none_iff, List.head?_eq_none_iff] at unmatched
  rw [Takes, unmatched] at takes
  contradiction

/-- Where a pattern takes a text, a match is found, which may take another text. -/
theorem exists_match_of_takes {pattern : Pattern} (takes : pattern.Takes before text rest [] noted) :
    ∃ found, pattern.matchAt? ⟨before, text ++ rest⟩ = Option.some found ∧
      text ++ rest = found.text ++ found.stop.after ∧
      pattern.Takes before found.text found.stop.after [] found.groups := by
  obtain ⟨found, matched⟩ := Option.ne_none_iff_exists'.1 (matchAt?_ne_none_of_takes takes)
  exact ⟨found, matched, takes_of_matchAt? matched⟩

/-! ## The parts of a pattern -/

@[simp]
theorem takes_empty : empty.Takes before text rest groups noted ↔ text = [] ∧ noted = groups := by
  constructor
  · intro takes
    obtain ⟨cursor_eq, noted_eq⟩ := Prod.mk.inj (List.mem_singleton.1 takes)
    exact ⟨by simpa using congrArg Cursor.before cursor_eq, noted_eq⟩
  · rintro ⟨rfl, rfl⟩
    exact List.mem_singleton.2 rfl

@[simp]
theorem takes_one {accepts : Char → Bool} :
    (one accepts).Takes before text rest groups noted ↔
      (∃ char, text = [char] ∧ accepts char) ∧ noted = groups := by
  constructor
  · intro takes
    rw [Takes, ways] at takes
    split at takes
    · contradiction
    · rename_i char after after_eq
      obtain after_eq : text ++ rest = char :: after := after_eq
      split at takes
      · rename_i accepted
        obtain ⟨cursor_eq, noted_eq⟩ := Prod.mk.inj (List.mem_singleton.1 takes)
        obtain ⟨-, rfl⟩ := Cursor.mk.inj cursor_eq
        exact ⟨⟨char, List.append_cancel_right (after_eq.trans List.singleton_append.symm), accepted⟩,
          noted_eq⟩
      · contradiction
  · rintro ⟨⟨char, rfl, accepted⟩, rfl⟩
    simp [Takes, ways, accepted]

@[simp]
theorem takes_seq {first second : Pattern} :
    (seq first second).Takes before text rest groups noted ↔
      ∃ front back between, text = front ++ back ∧
        first.Takes before front (back ++ rest) groups between ∧
        second.Takes (front.reverse ++ before) back rest between noted := by
  constructor
  · intro takes
    obtain ⟨middle, among, takes⟩ := List.mem_flatMap.1 takes
    obtain ⟨front, others, text_eq, middle_eq, front_takes⟩ := exists_takes_of_mem_ways among
    rw [middle_eq] at takes
    obtain ⟨back, rest', rfl, way_eq, back_takes⟩ := exists_takes_of_mem_ways takes
    obtain ⟨cursor_eq, -⟩ := Prod.mk.inj way_eq
    obtain ⟨-, rfl⟩ := Cursor.mk.inj cursor_eq
    have text_eq : text = front ++ back := by
      rw [← List.append_assoc] at text_eq
      exact List.append_cancel_right text_eq
    exact ⟨front, back, middle.2, text_eq, front_takes, back_takes⟩
  · rintro ⟨front, back, between, rfl, front_takes, back_takes⟩
    apply List.mem_flatMap.2
    refine ⟨_, by rw [List.append_assoc]; exact front_takes, ?_⟩
    rw [List.reverse_append, List.append_assoc]
    exact back_takes

@[simp]
theorem takes_choice {first second : Pattern} :
    (choice first second).Takes before text rest groups noted ↔
      first.Takes before text rest groups noted ∨ second.Takes before text rest groups noted :=
  List.mem_append

theorem opensLine_iff {cursor : Cursor} :
    cursor.opensLine ↔ ∀ char, cursor.before.head? = Option.some char → char = '\n' := by
  obtain ⟨before, after⟩ := cursor
  cases before <;> simp [Cursor.opensLine]

@[simp]
theorem takes_lineStart :
    lineStart.Takes before text rest groups noted ↔
      text = [] ∧ (∀ char, before.head? = Option.some char → char = '\n') ∧ noted = groups := by
  rw [Takes, ways_lineStart]
  constructor
  · intro takes
    split at takes
    · rename_i opens
      obtain ⟨cursor_eq, noted_eq⟩ := Prod.mk.inj (List.mem_singleton.1 takes)
      obtain rfl : text = [] := by simpa using congrArg Cursor.before cursor_eq
      exact ⟨rfl, opensLine_iff.1 opens, noted_eq⟩
    · contradiction
  · rintro ⟨rfl, opens, rfl⟩
    rw [List.nil_append, if_pos (opensLine_iff.2 opens)]
    exact List.mem_singleton.2 rfl

@[simp]
theorem takes_group {number : Nat} {body : Pattern} :
    (group number body).Takes before text rest groups noted ↔
      ∃ inner, body.Takes before text rest groups inner ∧ noted = (number, text) :: inner := by
  have between_eq : (⟨before, text ++ rest⟩ : Cursor).between ⟨text.reverse ++ before, rest⟩ = text := by
    simp [Cursor.between]
  constructor
  · intro takes
    obtain ⟨way, among, way_eq⟩ := List.mem_map.1 takes
    obtain ⟨stop_eq, noted_eq⟩ := Prod.mk.inj way_eq
    rw [stop_eq, between_eq] at noted_eq
    have way_eq : way = (⟨text.reverse ++ before, rest⟩, way.2) := Prod.ext stop_eq rfl
    rw [way_eq] at among
    exact ⟨way.2, among, noted_eq.symm⟩
  · rintro ⟨inner, takes, rfl⟩
    apply List.mem_map.2
    exact ⟨_, takes, by rw [between_eq]⟩

@[simp]
theorem takes_literal {given : List Char} :
    (literal given).Takes before text rest groups noted ↔ text = given ∧ noted = groups := by
  rw [Takes, ways_literal]
  constructor
  · intro takes
    split at takes
    · rename_i stands
      obtain ⟨cursor_eq, noted_eq⟩ := Prod.mk.inj (List.mem_singleton.1 takes)
      obtain ⟨others, after_eq⟩ := List.isPrefixOf_iff_prefix.1 stands
      obtain after_eq : given ++ others = text ++ rest := after_eq
      rw [← after_eq, Cursor.skip_append] at cursor_eq
      obtain ⟨-, rfl⟩ := Cursor.mk.inj cursor_eq
      exact ⟨(List.append_cancel_right after_eq).symm, noted_eq⟩
    · contradiction
  · rintro ⟨rfl, rfl⟩
    have stands : text.isPrefixOf (text ++ rest) := List.isPrefixOf_iff_prefix.2 (List.prefix_append _ _)
    rw [if_pos stands, Cursor.skip_append]
    exact List.mem_singleton.2 rfl

@[simp]
theorem takes_many_one {accepts : Char → Bool} :
    (many (one accepts)).Takes before text rest groups noted ↔
      (∀ char ∈ text, accepts char) ∧ noted = groups := by
  rw [Takes, ways_many_one]
  constructor
  · intro takes
    obtain ⟨count, among, way_eq⟩ := List.mem_map.1 takes
    obtain ⟨stop_eq, noted_eq⟩ := Prod.mk.inj way_eq
    have among : count < ((text ++ rest).takeWhile accepts).length + 1 := by simpa using among
    have front := List.takeWhile_prefix accepts (l := text ++ rest)
    have rest_eq := congrArg (List.length ∘ Cursor.after) stop_eq
    simp only [Function.comp_apply, Cursor.after_skip, List.length_drop, List.length_append] at rest_eq
    have bounded := front.length_le
    rw [List.length_append] at bounded
    have shorter : text.length ≤ ((text ++ rest).takeWhile accepts).length := by omega
    have text_front := List.prefix_of_prefix_length_le (List.prefix_append text rest) front shorter
    have accepted : ∀ char ∈ (text ++ rest).takeWhile accepts, accepts char :=
      List.all_eq_true.1 List.all_takeWhile
    exact ⟨fun char member => accepted char (text_front.subset member), noted_eq.symm⟩
  · rintro ⟨accepted, rfl⟩
    apply List.mem_map.2
    refine ⟨text.length, ?_, by rw [Cursor.skip_append]⟩
    have front : (text ++ rest).takeWhile accepts = text ++ rest.takeWhile accepts :=
      List.takeWhile_append_of_pos accepted
    simp only [List.mem_reverse, List.mem_range, front, List.length_append]
    omega

@[simp]
theorem takes_some_one {accepts : Char → Bool} :
    (some (one accepts)).Takes before text rest groups noted ↔
      text ≠ [] ∧ (∀ char ∈ text, accepts char) ∧ noted = groups := by
  rw [some, takes_seq]
  constructor
  · rintro ⟨front, back, between, rfl, front_takes, back_takes⟩
    obtain ⟨⟨char, rfl, accepted⟩, rfl⟩ := takes_one.1 front_takes
    obtain ⟨others, rfl⟩ := takes_many_one.1 back_takes
    exact ⟨List.cons_ne_nil _ _, List.forall_mem_cons.2 ⟨accepted, others⟩, rfl⟩
  · rintro ⟨filled, accepted, rfl⟩
    obtain ⟨char, others, rfl⟩ := List.exists_cons_of_ne_nil filled
    obtain ⟨first, accepted⟩ := List.forall_mem_cons.1 accepted
    exact ⟨[char], others, noted, rfl, takes_one.2 ⟨⟨char, rfl, first⟩, rfl⟩,
      takes_many_one.2 ⟨accepted, rfl⟩⟩

/-- A line break, with or without a carriage return. -/
def IsLineBreak (text : List Char) : Prop :=
  text = ['\n'] ∨ text = ['\r', '\n']

@[simp]
theorem takes_lineBreak :
    lineBreak.Takes before text rest groups noted ↔ IsLineBreak text ∧ noted = groups := by
  simp only [lineBreak, optional, takes_seq, takes_choice, takes_one, takes_empty, IsLineBreak,
    beq_iff_eq]
  constructor
  · rintro ⟨front, back, between, rfl, front_takes, ⟨char, rfl, rfl⟩, rfl⟩
    obtain ⟨⟨other, rfl, rfl⟩, rfl⟩ | ⟨rfl, rfl⟩ := front_takes
    · exact ⟨.inr rfl, rfl⟩
    · exact ⟨.inl rfl, rfl⟩
  · rintro ⟨rfl | rfl, rfl⟩
    · exact ⟨[], ['\n'], noted, rfl, .inr ⟨rfl, rfl⟩, ⟨'\n', rfl, rfl⟩, rfl⟩
    · exact ⟨['\r'], ['\n'], noted, rfl, .inl ⟨⟨'\r', rfl, rfl⟩, rfl⟩, ⟨'\n', rfl, rfl⟩, rfl⟩

@[simp]
theorem takes_all_nil : (all []).Takes before text rest groups noted ↔ text = [] ∧ noted = groups :=
  takes_empty

theorem takes_all_cons {pattern : Pattern} {others : List Pattern} :
    (all (pattern :: others)).Takes before text rest groups noted ↔
      ∃ front back between, text = front ++ back ∧
        pattern.Takes before front (back ++ rest) groups between ∧
        (all others).Takes (front.reverse ++ before) back rest between noted :=
  takes_seq

theorem takes_any {patterns : List Pattern} :
    (any patterns).Takes before text rest groups noted ↔
      ∃ pattern ∈ patterns, pattern.Takes before text rest groups noted := by
  induction patterns with
  | nil => simp [any]
  | cons pattern others ih =>
      cases others with
      | nil => simp [any]
      | cons second others => simp [any, ih]

end Pattern
end Shakedown
