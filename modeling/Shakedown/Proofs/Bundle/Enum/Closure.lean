import Shakedown.Proofs.Bundle.Enum.Lines
import Shakedown.Proofs.Pattern.Recasting
import Shakedown.Proofs.Pattern.Repetition
import Shakedown.Proofs.Text.CharClass

/-!
# Recasting enums that are filled in a closure

The rule takes the declaration of a name and the closure that fills it, and makes one declaration of both,
with the closure as a value that is marked. In what it makes nothing is declared without a value, so there
is nothing in it that the rule would take, and the text around it is taken as before.
-/

namespace Shakedown
namespace Enum

/-! ## What the rule looks for -/

/-- The declaration of a name without a value, and the opening of a closure behind it. -/
def IsClosureHead (name parameter text : List Char) : Prop :=
  (name ≠ [] ∧ IsVisible name) ∧ (parameter ≠ [] ∧ IsVisible parameter) ∧
    ∃ count last, Pattern.IsLineBreak last ∧
      text = "var ".toList ++ (name ++ (';' :: ((List.replicate count Marker.pure.toList).flatten ++
        (last ++ ("(function (".toList ++ (parameter ++ ") \x7b".toList))))))

/-- A statement that fills both directions of a member. -/
def IsMemberStatement (name first number second text : List Char) : Prop :=
  (first ≠ [] ∧ IsVisible first) ∧ (second ≠ [] ∧ IsVisible second) ∧
    text = name ++ ('[' :: (name ++ ("[\"".toList ++ (first ++ ("\"] = ".toList ++ (number ++
      ("] = \"".toList ++ (second ++ "\";".toList))))))))

/-- A number in decimal digits. -/
def IsNumber (text : List Char) : Prop :=
  text ≠ [] ∧ ∀ char ∈ text, CharClass.isDigit char

/-- A statement behind blanks. -/
def IsFurtherStatement (name text : List Char) : Prop :=
  ∃ space first number second statement, (space ≠ [] ∧ ∀ char ∈ space, CharClass.isBlank char) ∧
    IsNumber number ∧ IsMemberStatement name first number second statement ∧ text = space ++ statement

/-- The statements of a closure, the first of which numbers its member zero. -/
def IsMembers (name first second text : List Char) : Prop :=
  ∃ (statement : List Char) (others : List (List Char)) (last : List Char),
    IsMemberStatement name first ['0'] second statement ∧
    (∀ other ∈ others, IsFurtherStatement name other) ∧ Pattern.IsLineBreak last ∧
    text = statement ++ (others.flatten ++ last)

/-- The body of a closure, with the call that hands it the object. -/
def IsClosureBody (name first second members text : List Char) : Prop :=
  ∃ space, (space ≠ [] ∧ ∀ char ∈ space, CharClass.isBlank char) ∧ IsMembers name first second members ∧
    text = space ++ (members ++ ("\x7d)(".toList ++ (name ++ (" || (".toList ++ (name ++
      " = \x7b\x7d));".toList)))))

theorem IsFurtherStatement.ne_nil {name text : List Char} (is_further : IsFurtherStatement name text) :
    text ≠ [] := by
  obtain ⟨space, first, number, second, statement, ⟨filled, -⟩, -, -, rfl⟩ := is_further
  exact List.append_ne_nil_of_left_ne_nil filled _

section Takes

variable {name before text rest : List Char} {groups noted : Groups}

open Pattern hiding some

theorem takes_markers :
    (many (literal Marker.pure.toList)).Takes before text rest groups noted ↔
      (∃ count, text = (List.replicate count Marker.pure.toList).flatten) ∧ noted = groups := by
  rw [takes_many_of_plain takes_literal]
  constructor
  · rintro ⟨⟨parts, rfl, all⟩, rfl⟩
    have parts_eq := List.eq_replicate_iff.2 ⟨rfl, fun part among => (all part among).2⟩
    exact ⟨⟨parts.length, congrArg List.flatten parts_eq⟩, rfl⟩
  · rintro ⟨⟨count, rfl⟩, rfl⟩
    refine ⟨⟨_, rfl, fun part among => ?_⟩, rfl⟩
    obtain rfl := List.eq_of_mem_replicate among
    exact ⟨by decide, rfl⟩

theorem takes_closureHead :
    closureHead.Takes before text rest [] noted ↔ ∃ name parameter, IsClosureHead name parameter text ∧
      noted = [(2, parameter), (1, name)] := by
  simp only [closureHead, takes_all_cons, takes_all_nil, takes_literal, takes_group, visible, takes_some_one,
    takes_markers, takes_lineBreak, IsClosureHead, IsVisible, and_assoc, existsAndEq, true_and,
    List.append_nil]
  constructor
  · rintro ⟨name, last, parameter, count, rfl, filled, visible, line_break, also_filled, also_visible, rfl⟩
    exact ⟨name, parameter, filled, visible, also_filled, also_visible, ⟨count, last, line_break, rfl⟩, rfl⟩
  · rintro ⟨name, parameter, filled, visible, also_filled, also_visible, ⟨count, last, line_break, rfl⟩, rfl⟩
    exact ⟨name, last, parameter, count, rfl, filled, visible, line_break, also_filled, also_visible, rfl⟩

theorem takes_memberStatement {number : Pattern} {IsValue : List Char → Prop} {first : Nat}
    (plain : ∀ {before text rest groups noted},
      number.Takes before text rest groups noted ↔ IsValue text ∧ noted = groups) :
    (memberStatement name number first).Takes before text rest groups noted ↔
      ∃ spelling value other, IsValue value ∧ IsMemberStatement name spelling value other text ∧
        noted = (first + 1, other) :: (first, spelling) :: groups := by
  simp only [memberStatement, quoted, takes_all_cons, takes_all_nil, takes_literal, takes_group, visible,
    takes_some_one, plain, IsMemberStatement, IsVisible, and_assoc, existsAndEq, true_and, List.append_nil]
  constructor
  · rintro ⟨spelling, value, other, rfl, filled, visible, is_value, also_filled, also_visible, rfl⟩
    exact ⟨spelling, value, other, is_value, filled, visible, also_filled, also_visible, by simp, rfl⟩
  · rintro ⟨spelling, value, other, is_value, filled, visible, also_filled, also_visible, rfl, rfl⟩
    exact ⟨spelling, value, other, by simp, filled, visible, is_value, also_filled, also_visible, rfl⟩

theorem takes_furtherStatement :
    (seq blanks (memberStatement name digits 4)).Takes before text rest groups noted ↔
      ∃ space spelling value other statement, (space ≠ [] ∧ ∀ char ∈ space, CharClass.isBlank char) ∧
        IsNumber value ∧ IsMemberStatement name spelling value other statement ∧
        text = space ++ statement ∧ noted = (5, other) :: (4, spelling) :: groups := by
  have plain : ∀ {before text rest groups noted},
      digits.Takes before text rest groups noted ↔ IsNumber text ∧ noted = groups := by
    intros
    rw [digits, takes_some_one, IsNumber, and_assoc]
  simp only [takes_seq, blanks, takes_some_one, takes_memberStatement plain, and_assoc]
  constructor
  · rintro ⟨space, statement, _, rfl, filled, blank, rfl, spelling, value, other, is_value, is_statement, rfl⟩
    exact ⟨space, spelling, value, other, statement, filled, blank, is_value, is_statement, rfl, rfl⟩
  · rintro ⟨space, spelling, value, other, statement, filled, blank, is_value, is_statement, rfl, rfl⟩
    exact ⟨space, statement, _, rfl, filled, blank, rfl, spelling, value, other, is_value, is_statement, rfl⟩

theorem takes_zeroStatement {first : Nat} :
    (memberStatement name (literal ['0']) first).Takes before text rest groups noted ↔
      ∃ spelling other, IsMemberStatement name spelling ['0'] other text ∧
        noted = (first + 1, other) :: (first, spelling) :: groups := by
  simp only [takes_memberStatement takes_literal, existsAndEq, true_and]

theorem of_takes_closureStatements (takes : (closureStatements name).Takes before text rest [] noted) :
    ∃ first second members, IsClosureBody name first second members text ∧ noted.lookup 1 = some members ∧
      noted.lookup 2 = some first ∧ noted.lookup 3 = some second := by
  have reads : ∀ {before text rest groups noted},
      (seq blanks (memberStatement name digits 4)).Takes before text rest groups noted →
        IsFurtherStatement name text ∧ ∀ number ∈ [2, 3], noted.lookup number = groups.lookup number := by
    intro before text rest groups noted takes
    obtain ⟨space, spelling, value, other, statement, filled, is_value, is_statement, rfl, rfl⟩ :=
      takes_furtherStatement.1 takes
    exact ⟨⟨space, spelling, value, other, statement, filled, is_value, is_statement, rfl⟩,
      by simp [List.lookup_cons]⟩
  simp only [closureStatements, takes_all_cons, takes_all_nil, blanks, takes_some_one, takes_group,
    takes_zeroStatement, takes_lineBreak, takes_literal, and_assoc, existsAndEq, true_and,
    List.append_nil] at takes
  obtain ⟨space, inner, statement, first, second, further, last, rfl, filled, blank, is_statement, further_takes,
    line_break, rfl⟩ := takes
  obtain ⟨⟨others, rfl, all⟩, kept⟩ := exists_parts_of_takes_many (fun _ _ _ => rfl)
    (fun kept also_kept number among => (also_kept number among).trans (kept number among)) reads further_takes
  refine ⟨first, second, statement ++ (others.flatten ++ last), ⟨space, ⟨filled, blank⟩, ⟨statement, others,
    last, is_statement, all, line_break, rfl⟩, by simp⟩, rfl, ?_, ?_⟩
  · exact kept 2 (by simp)
  · exact kept 3 (by simp)

theorem exists_takes_closureStatements {first second members : List Char} (rest : List Char)
    (is_body : IsClosureBody name first second members text) :
    ∃ noted, (closureStatements name).Takes before text rest [] noted := by
  obtain ⟨space, ⟨filled, blank⟩, ⟨statement, others, last, is_statement, all, line_break, rfl⟩, rfl⟩ :=
    is_body
  have takes : ∀ {before text} rest groups, IsFurtherStatement name text →
      ∃ noted, (seq blanks (memberStatement name digits 4)).Takes before text rest groups noted := by
    rintro before text rest groups ⟨space, spelling, value, other, statement, rest_of⟩
    exact ⟨_, takes_furtherStatement.2 ⟨space, spelling, value, other, statement, rest_of.1, rest_of.2.1,
      rest_of.2.2.1, rest_of.2.2.2, rfl⟩⟩
  obtain ⟨noted, further_takes⟩ : ∃ noted, (many (seq blanks (memberStatement name digits 4))).Takes
      (statement.reverse ++ (space.reverse ++ before)) others.flatten
      (last ++ ("\x7d)(".toList ++ name ++ " || (".toList ++ name ++ " = \x7b\x7d));".toList ++ rest))
      [(3, second), (2, first)] noted :=
    exists_takes_many takes (fun is_further => is_further.ne_nil) all
  simp only [closureStatements, takes_all_cons, takes_all_nil, blanks, takes_some_one, takes_group,
    takes_zeroStatement, takes_lineBreak, takes_literal, and_assoc, existsAndEq, true_and,
    List.append_nil]
  exact ⟨space, noted, statement, first, second, others.flatten, last, by simp, filled, blank, is_statement,
    further_takes, line_break, trivial⟩

end Takes

/-! ## In one way only -/

section Parts

variable {name name' parameter parameter' text text' rest rest' first second : List Char} {count count' : Nat}

/-- Markers one behind the other. -/
abbrev markers (count : Nat) : List Char :=
  (List.replicate count Marker.pure.toList).flatten

theorem mem_markers {char : Char} (among : char ∈ markers count) : char ∈ Marker.pure.toList := by
  obtain ⟨part, part_among, char_among⟩ := List.mem_flatten.1 among
  rwa [List.eq_of_mem_replicate part_among] at char_among

/-- The name, up to the markers behind it. -/
theorem isVisible_append_markers (visible : IsVisible name) : IsVisible (name ++ ';' :: markers count) := by
  have marker_visible : IsVisible Marker.pure.toList := isVisible_of_all (by decide)
  have all_visible : IsVisible (markers count) := fun char among => marker_visible char (mem_markers among)
  exact visible.append (all_visible.cons (by decide))

/-- The last semicolon ends the name. -/
theorem append_markers_inj (same : name ++ ';' :: markers count = name' ++ ';' :: markers count') :
    name = name' := by
  have free : ∀ count, ';' ∉ (markers count).reverse := fun count among =>
    absurd (mem_markers (List.mem_reverse.1 among)) (by decide)
  have reversed : (markers count).reverse ++ ';' :: name.reverse =
      (markers count').reverse ++ ';' :: name'.reverse := by
    simpa using congrArg List.reverse same
  exact List.reverse_inj.1 (Text.append_cons_inj (free count) (free count') reversed).2

theorem IsClosureHead.append_inj (is_head : IsClosureHead name parameter text)
    (is_head' : IsClosureHead name' parameter' text') (same : text ++ rest = text' ++ rest') :
    name = name' ∧ parameter = parameter' ∧ rest = rest' := by
  obtain ⟨⟨-, visible⟩, ⟨-, parameter_visible⟩, count, last, line_break, rfl⟩ := is_head
  obtain ⟨⟨-, visible'⟩, ⟨-, parameter_visible'⟩, count', last', line_break', rfl⟩ := is_head'
  have split : (name ++ ';' :: markers count) ++
        (last ++ ("(function (".toList ++ (parameter ++ ')' :: ' ' :: '\x7b' :: rest))) =
      (name' ++ ';' :: markers count') ++
        (last' ++ ("(function (".toList ++ (parameter' ++ ')' :: ' ' :: '\x7b' :: rest'))) := by
    simpa using same
  obtain ⟨run_eq, rfl, behind⟩ := (isVisible_append_markers visible).append_lineBreak_inj
    (isVisible_append_markers visible') line_break line_break' split
  have closed : ∀ {parameter}, IsVisible parameter → IsVisible (parameter ++ [')']) :=
    fun visible => visible.append (isVisible_of_all (by decide))
  have taken : (parameter ++ [')']) ++ ' ' :: '\x7b' :: rest = (parameter' ++ [')']) ++ ' ' :: '\x7b' :: rest' := by
    simpa using behind
  obtain ⟨parameter_eq, -, rest_eq⟩ := (closed parameter_visible).append_cons_inj (closed parameter_visible')
    (by decide) (by decide) taken
  exact ⟨append_markers_inj run_eq, List.append_cancel_right parameter_eq, (List.cons_eq_cons.1 rest_eq).2⟩

/-- Blanks in front of a text that begins with another character are determined. -/
theorem append_blanks_inj {space space' : List Char} {char char' : Char}
    (blank : ∀ char ∈ space, CharClass.isBlank char) (blank' : ∀ char ∈ space', CharClass.isBlank char)
    (own : CharClass.isBlank char = false) (own' : CharClass.isBlank char' = false)
    (same : space ++ char :: rest = space' ++ char' :: rest') : char :: rest = char' :: rest' := by
  have dropped := congrArg (List.dropWhile CharClass.isBlank) same
  rwa [List.dropWhile_append_of_pos blank, List.dropWhile_append_of_pos blank',
    List.dropWhile_cons_of_neg (by simp [own]), List.dropWhile_cons_of_neg (by simp [own'])] at dropped

/-- A statement that numbers its member zero is taken apart in one way. -/
theorem IsMemberStatement.append_inj {first' second' : List Char} {char char' : Char}
    (visible : IsVisible name) (statement : IsMemberStatement name first ['0'] second text)
    (statement' : IsMemberStatement name first' ['0'] second' text') (blank : CharClass.isBlank char)
    (blank' : CharClass.isBlank char') (same : text ++ char :: rest = text' ++ char' :: rest') :
    first = first' ∧ second = second' := by
  obtain ⟨⟨-, first_visible⟩, ⟨-, second_visible⟩, rfl⟩ := statement
  obtain ⟨⟨-, first_visible'⟩, ⟨-, second_visible'⟩, rfl⟩ := statement'
  have front_visible : IsVisible "[\"".toList := isVisible_of_all (by decide)
  have back_visible : IsVisible "\"]".toList := isVisible_of_all (by decide)
  have end_visible : IsVisible "\";".toList := isVisible_of_all (by decide)
  have named : ∀ {first}, IsVisible first →
      IsVisible (name ++ '[' :: (name ++ ("[\"".toList ++ (first ++ "\"]".toList)))) := fun first_visible =>
    visible.append ((visible.append (front_visible.append (first_visible.append back_visible))).cons
      (by decide))
  have spelled : ∀ {second}, IsVisible second → IsVisible ('"' :: (second ++ "\";".toList)) :=
    fun second_visible => (second_visible.append end_visible).cons (by decide)
  have split : (name ++ '[' :: (name ++ ("[\"".toList ++ (first ++ "\"]".toList)))) ++ ' ' ::
        ("= 0] = ".toList ++ (('"' :: (second ++ "\";".toList)) ++ char :: rest)) =
      (name ++ '[' :: (name ++ ("[\"".toList ++ (first' ++ "\"]".toList)))) ++ ' ' ::
        ("= 0] = ".toList ++ (('"' :: (second' ++ "\";".toList)) ++ char' :: rest')) := by
    simpa using same
  obtain ⟨named_eq, -, behind⟩ := (named first_visible).append_cons_inj (named first_visible') (by decide)
    (by decide) split
  obtain ⟨spelled_eq, -, -⟩ := (spelled second_visible).append_cons_inj (spelled second_visible') blank blank'
    (List.append_cancel_left behind)
  exact ⟨by simpa using named_eq, by simpa using spelled_eq⟩

/-- Behind the first statement stands a blank. -/
theorem IsMembers.exists_cons (members : IsMembers name first second text) :
    ∃ statement char more, IsMemberStatement name first ['0'] second statement ∧ CharClass.isBlank char ∧
      text = statement ++ char :: more := by
  obtain ⟨statement, others, last, is_statement, all, line_break, rfl⟩ := members
  obtain ⟨char, more, last_eq, blank, -⟩ := exists_cons_of_isLineBreak line_break
  cases others with
  | nil => exact ⟨statement, char, more, is_statement, blank, by rw [last_eq]; rfl⟩
  | cons other others =>
      obtain ⟨space, _, _, _, further, ⟨filled, blanks⟩, -, -, rfl⟩ := all other List.mem_cons_self
      obtain ⟨char, space, rfl⟩ := List.exists_cons_of_ne_nil filled
      exact ⟨statement, char, _, is_statement, blanks char List.mem_cons_self, rfl⟩

/-- The spellings of the first member are found in one way. -/
theorem IsClosureBody.append_inj {first' second' members members' : List Char} (filled : name ≠ [])
    (visible : IsVisible name) (is_body : IsClosureBody name first second members text)
    (is_body' : IsClosureBody name first' second' members' text') (same : text ++ rest = text' ++ rest') :
    first = first' ∧ second = second' := by
  obtain ⟨space, ⟨-, blanks⟩, is_members, rfl⟩ := is_body
  obtain ⟨space', ⟨-, blanks'⟩, is_members', rfl⟩ := is_body'
  obtain ⟨statement, char, more, is_statement, blank, rfl⟩ := is_members.exists_cons
  obtain ⟨statement', char', more', is_statement', blank', rfl⟩ := is_members'.exists_cons
  obtain ⟨letter, others, name_eq⟩ := List.exists_cons_of_ne_nil filled
  have own : CharClass.isBlank letter = false := by
    simpa using visible letter (name_eq ▸ List.mem_cons_self)
  have starts : ∀ {first second text}, IsMemberStatement name first ['0'] second text →
      ∃ tail, text = letter :: tail := by
    rintro first second text ⟨-, -, rfl⟩
    exact ⟨_, by rw [name_eq]; rfl⟩
  obtain ⟨tail, statement_eq⟩ := starts is_statement
  obtain ⟨tail', statement_eq'⟩ := starts is_statement'
  generalize "\x7d)(".toList ++ (name ++ (" || (".toList ++ (name ++ " = \x7b\x7d));".toList))) = closing at same
  have behind : statement ++ char :: (more ++ (closing ++ rest)) =
      statement' ++ char' :: (more' ++ (closing ++ rest')) := by
    rw [statement_eq, statement_eq'] at same ⊢
    simp only [List.append_assoc, List.cons_append] at same ⊢
    exact append_blanks_inj blanks blanks' own own same
  exact is_statement.append_inj visible is_statement' blank blank' behind

end Parts

/-! ## Where nothing is declared -/

section Avoiding

variable {name parameter first number second text follows : List Char}

/-- Up to its value nothing is declared. -/
theorem avoids_opening (visible : IsVisible parameter) :
    Avoids follows ("(function (".toList ++ (parameter ++ ") \x7b".toList)) := by
  have function_visible : IsVisible "(function".toList := isVisible_of_all (by decide)
  have split : "(function (".toList ++ (parameter ++ ") \x7b".toList) =
      "(function".toList ++ ([' '] ++ (('(' :: parameter) ++ [')'] ++ " \x7b".toList)) := by
    simp
  rw [split]
  apply (avoids_run function_visible rfl (by decide)).append
  apply (avoids_of_notMem (by decide)).append
  exact (avoids_run_concat (visible.cons (by decide)) (by decide) (by decide)).append
    (avoids_of_notMem (by decide))

/-- Behind its keyword, a head holds the name up to a line break, and the opening of the closure. -/
theorem IsClosureHead.exists_run (is_head : IsClosureHead name parameter text) :
    ∃ run char rest, IsVisible run ∧ CharClass.isBlank char ∧ char ≠ ' ' ∧
      text = "var ".toList ++ (run ++ char :: rest) ∧ ∀ follows, Avoids follows (run ++ char :: rest) := by
  obtain ⟨⟨-, visible⟩, ⟨-, parameter_visible⟩, count, last, line_break, rfl⟩ := is_head
  obtain ⟨char, more, last_eq, blank, other⟩ := exists_cons_of_isLineBreak line_break
  refine ⟨name ++ ';' :: markers count, char,
    more ++ ("(function (".toList ++ (parameter ++ ") \x7b".toList)), isVisible_append_markers visible, blank,
    other, by simp [last_eq], fun follows => ?_⟩
  have free : 'v' ∉ more := fun among =>
    notMem_of_isLineBreak line_break (last_eq ▸ List.mem_cons_of_mem _ among)
  exact avoids_run_blank (isVisible_append_markers visible) blank other
    ((avoids_of_notMem free).append (avoids_opening parameter_visible))

/-- Behind its first letter, nothing is declared in a head. -/
theorem IsClosureHead.exists_cons (is_head : IsClosureHead name parameter text) :
    ∃ rest, text = 'v' :: rest ∧ ∀ follows, Avoids follows rest := by
  obtain ⟨run, char, rest, -, -, -, rfl, avoids⟩ := is_head.exists_run
  exact ⟨_, rfl, fun follows => avoids_keyword_tail (avoids follows)⟩

/-- What a head declares has no value. -/
theorem IsClosureHead.avoids_toMarked (is_head : IsClosureHead name parameter text) :
    Avoids toMarked text := by
  obtain ⟨run, char, rest, visible, blank, other, rfl, avoids⟩ := is_head.exists_run
  apply avoids_keyword (avoids _)
  intro after names
  rw [List.append_assoc] at names
  exact other ((names_iff visible (by decide) blank).1 names).1

/-- A head is a declaration that a line break stands behind. -/
theorem IsClosureHead.exists_declares (is_head : IsClosureHead name parameter text) (more : List Char) :
    ∃ char, CharClass.isBlank char ∧ char ≠ ' ' ∧ Declares [char] (text ++ more) := by
  obtain ⟨run, char, rest, visible, blank, other, rfl, -⟩ := is_head.exists_run
  exact ⟨char, blank, other, _, List.append_assoc _ _ _, run, rest ++ more, visible, by simp⟩

theorem IsMemberStatement.avoids (visible : IsVisible name) (number_visible : IsVisible number)
    (statement : IsMemberStatement name first number second text) : Avoids follows text := by
  obtain ⟨⟨-, first_visible⟩, ⟨-, second_visible⟩, rfl⟩ := statement
  have front_visible : IsVisible ("[\"".toList ++ (first ++ ['"'])) :=
    (isVisible_of_all (by decide)).append (first_visible.append (isVisible_of_all (by decide)))
  have split : name ++ ('[' :: (name ++ ("[\"".toList ++ (first ++ ("\"] = ".toList ++ (number ++
        ("] = \"".toList ++ (second ++ "\";".toList)))))))) =
      (name ++ '[' :: (name ++ ("[\"".toList ++ (first ++ ['"'])))) ++ [']'] ++ (" = ".toList ++
        (number ++ [']'] ++ (" = ".toList ++ (('"' :: (second ++ ['"'])) ++ [';'])))) := by
    simp
  have spelled : IsVisible ('"' :: (second ++ ['"'])) :=
    (second_visible.append (isVisible_of_all (by decide))).cons (by decide)
  have assigned : Avoids follows " = ".toList := avoids_of_notMem (by decide)
  rw [split]
  apply (avoids_run_concat (visible.append ((visible.append front_visible).cons (by decide))) (by decide)
    (by decide)).append
  apply assigned.append
  apply (avoids_run_concat number_visible (by decide) (by decide)).append
  exact assigned.append (avoids_run_concat spelled (by decide) (by decide))

theorem IsMembers.avoids (visible : IsVisible name) (members : IsMembers name first second text) :
    Avoids follows text := by
  obtain ⟨statement, others, last, is_statement, all, line_break, rfl⟩ := members
  apply (is_statement.avoids visible (isVisible_of_all (by decide))).append
  apply Avoids.append
  · apply avoids_flatten
    intro other among
    obtain ⟨space, first, number, second, further, ⟨-, blank⟩, ⟨-, digits⟩, is_further, rfl⟩ :=
      all other among
    have free : 'v' ∉ space := fun member => absurd (blank _ member) (by decide)
    have number_visible : IsVisible number := fun char member => by
      simp [CharClass.isBlank_of_isDigit (digits char member)]
    exact (avoids_of_notMem free).append (is_further.avoids visible number_visible)
  · exact avoids_of_notMem (notMem_of_isLineBreak line_break)

/-- In the body of a closure no value is marked. -/
theorem IsClosureBody.avoids_toMarked {members : List Char} (visible : IsVisible name)
    (is_body : IsClosureBody name first second members text) : Avoids toMarked text := by
  obtain ⟨space, ⟨-, blank⟩, is_members, rfl⟩ := is_body
  have free : 'v' ∉ space := fun member => absurd (blank _ member) (by decide)
  apply (avoids_of_notMem free).append
  apply (is_members.avoids visible).append
  have split : "\x7d)(".toList ++ (name ++ (" || (".toList ++ (name ++ " = \x7b\x7d));".toList))) =
      ("\x7d)(".toList ++ name) ++ ' ' :: ("|| ".toList ++ (('(' :: name) ++ ' ' :: "= \x7b\x7d));".toList)) := by
    simp
  have other : '\x7b' ≠ '=' := by decide
  have last_avoids : Avoids toMarked (('(' :: name) ++ ' ' :: "= \x7b\x7d));".toList) :=
    avoids_run_space (visible.cons (by decide)) (avoids_of_notMem (by decide)) fun _ after =>
      not_names_sign other
  have alternative_visible : IsVisible "||".toList := isVisible_of_all (by decide)
  have call_visible : IsVisible "\x7d)(".toList := isVisible_of_all (by decide)
  rw [split]
  apply avoids_run_space (call_visible.append visible) ((avoids_of_notMem (by decide)).append last_avoids)
  intro _ after names
  obtain ⟨-, front⟩ := (names_iff alternative_visible (by decide) (by decide)).1 names
  exact absurd (List.cons_prefix_cons.1 front).1 (by decide)

/-- What the rule makes, with the sign of the first assignment taken apart. -/
theorem closureText_eq (name members : List Char) : closureText name members =
    "var ".toList ++ (name ++ ' ' :: '=' :: ' ' :: '/' :: ("*@__PURE__*/(function()".toList ++
      (" \x7b\n    ".toList ++ (("var ".toList ++ (name ++ ' ' :: '=' :: ' ' :: "\x7b\x7d;\n    ".toList)) ++
        (members ++ ("    ".toList ++ ("return".toList ++ ([' '] ++ ((name ++ [';']) ++
          "\n\x7d)();".toList))))))))) := by
  have value : " = ".toList = [' ', '=', ' '] := by decide
  have marker : Marker.pure.toList = '/' :: "*@__PURE__*/".toList := by decide
  have opening : "(function() \x7b\n    var ".toList =
      "(function()".toList ++ (" \x7b\n    ".toList ++ "var ".toList) := by decide
  have marked : "*@__PURE__*/(function()".toList = "*@__PURE__*/".toList ++ "(function()".toList := by decide
  have object : " = \x7b\x7d;\n    ".toList = ' ' :: '=' :: ' ' :: "\x7b\x7d;\n    ".toList := by decide
  have returned : "    return ".toList = "    ".toList ++ ("return".toList ++ [' ']) := by decide
  have ended : ";\n\x7d)();".toList = ';' :: "\n\x7d)();".toList := by decide
  unfold closureText
  rw [value, marker, opening, marked, object, returned, ended]
  simp only [List.append_assoc, List.cons_append, List.nil_append]

theorem declares_closureText (visible : IsVisible name) (members more : List Char) :
    Declares toMarked (closureText name members ++ more) := by
  rw [closureText_eq]
  exact ⟨_, List.append_assoc _ _ _, name, _, visible, by simp; rfl⟩

/-- In what the rule makes, no name is declared that a line break stands behind. -/
theorem closureText_avoids {members : List Char} {char : Char} (visible : IsVisible name)
    (is_members : IsMembers name first second members) (blank : CharClass.isBlank char) (other : char ≠ ' ') :
    Avoids [char] (closureText name members) := by
  have function_visible : IsVisible "*@__PURE__*/(function()".toList := isVisible_of_all (by decide)
  have return_visible : IsVisible "return".toList := isVisible_of_all (by decide)
  have declaration : Avoids [char] ("var ".toList ++ (name ++ ' ' :: '=' :: ' ' :: "\x7b\x7d;\n    ".toList)) :=
    avoids_unassigned visible blank other (avoids_of_notMem (by decide))
  have ending : Avoids [char] ((name ++ [';']) ++ "\n\x7d)();".toList) :=
    (avoids_run_concat visible (by decide) (by decide)).append (avoids_of_notMem (by decide))
  have returned : Avoids [char] ("return".toList ++ ([' '] ++ ((name ++ [';']) ++ "\n\x7d)();".toList))) :=
    (avoids_run return_visible rfl (by decide)).append ((avoids_of_notMem (by decide)).append ending)
  have marked : Avoids [char] ('/' :: "*@__PURE__*/(function()".toList) :=
    avoids_run (function_visible.cons (by decide)) rfl (by decide)
  rw [closureText_eq]
  apply avoids_unassigned visible blank other
  apply marked.append
  apply (avoids_of_notMem (by decide)).append
  apply declaration.append
  exact (is_members.avoids visible).append ((avoids_of_notMem (by decide)).append returned)

end Avoiding

/-! ## What the rule does -/

variable {name head body before after new : List Char}

/-- What the rule finds is an enum that is filled in a closure. -/
theorem exists_of_wrapClosureAt {found : Match} {stop : Cursor}
    (matched : closureHead.matchAt? ⟨before, after⟩ = some found)
    (answered : wrapClosureAt found = some (new, stop)) :
    ∃ name head first members body, IsClosureHead name name head ∧
      IsClosureBody name first first members body ∧ after = head ++ body ++ stop.after ∧
      stop.before = (head ++ body).reverse ++ before ∧ new = closureText name members := by
  obtain ⟨after_eq, taken⟩ := Pattern.takes_of_matchAt? matched
  obtain ⟨name, parameter, is_head, noted_eq⟩ := takes_closureHead.1 taken
  have name_eq : found.group 1 = name := by simp [Match.group, noted_eq, List.lookup_cons]
  have parameter_eq : found.group 2 = parameter := by simp [Match.group, noted_eq]
  rw [wrapClosureAt, name_eq, parameter_eq] at answered
  split at answered
  · contradiction
  rename_i named
  obtain rfl : name = parameter := by simpa using named
  split at answered
  · contradiction
  rename_i inner inner_matched
  split at answered
  · contradiction
  rename_i spelled
  obtain ⟨new_eq, rfl⟩ := Prod.mk.inj (Option.some.inj answered)
  obtain ⟨stop_eq, inner_taken⟩ := Pattern.takes_of_matchAt? inner_matched
  obtain ⟨first, second, members, is_body, members_eq, first_eq, second_eq⟩ :=
    of_takes_closureStatements inner_taken
  obtain rfl : first = second := by
    simpa [Match.group, first_eq, second_eq] using spelled
  refine ⟨name, found.text, first, members, inner.text, is_head, is_body, ?_, ?_, ?_⟩
  · rw [after_eq, stop_eq, List.append_assoc]
  · rw [(Pattern.after_eq_of_matchAt? inner_matched).2, (Pattern.after_eq_of_matchAt? matched).2]
    simp
  · rw [← new_eq, Match.group, members_eq, Option.getD_some]

theorem closure_answers_iff : closureHead.Answers wrapClosureAt before after ↔
    ∃ name head first members body rest, IsClosureHead name name head ∧
      IsClosureBody name first first members body ∧ after = head ++ body ++ rest := by
  constructor
  · rintro ⟨found, matched, answered⟩
    obtain ⟨⟨new, stop⟩, answered⟩ := Option.ne_none_iff_exists'.1 answered
    obtain ⟨name, head, first, members, body, is_head, is_body, after_eq, -⟩ :=
      exists_of_wrapClosureAt matched answered
    exact ⟨name, head, first, members, body, stop.after, is_head, is_body, after_eq⟩
  · rintro ⟨name, head, first, members, body, rest, is_head, is_body, rfl⟩
    rw [List.append_assoc]
    have taken : closureHead.Takes before head (body ++ rest) [] [(2, name), (1, name)] :=
      takes_closureHead.2 ⟨name, name, is_head, rfl⟩
    obtain ⟨found, matched, after_eq, found_taken⟩ := Pattern.exists_match_of_takes taken
    obtain ⟨name', parameter, is_head', noted_eq⟩ := takes_closureHead.1 found_taken
    obtain ⟨rfl, rfl, rest_eq⟩ := is_head.append_inj is_head' after_eq
    have name_eq : found.group 1 = name := by simp [Match.group, noted_eq, List.lookup_cons]
    have parameter_eq : found.group 2 = name := by simp [Match.group, noted_eq]
    obtain ⟨noted, inner_taken⟩ : ∃ noted,
        (closureStatements name).Takes found.stop.before body rest [] noted :=
      exists_takes_closureStatements rest is_body
    obtain ⟨inner, inner_matched, inner_eq, inner_found⟩ := Pattern.exists_match_of_takes inner_taken
    obtain ⟨first', second', members', is_body', -, first_eq, second_eq⟩ :=
      of_takes_closureStatements inner_found
    obtain ⟨rfl, rfl⟩ := is_body.append_inj is_head.1.1 is_head.1.2 is_body' inner_eq
    have stop_eq : found.stop = ⟨found.stop.before, body ++ rest⟩ := Cursor.eq_of_parts rfl rest_eq.symm
    rw [← stop_eq] at inner_matched
    have spelled : inner.group 2 = inner.group 3 := by rw [Match.group, Match.group, first_eq, second_eq]
    exact ⟨found, matched, by simp [wrapClosureAt, name_eq, parameter_eq, inner_matched, spelled]⟩

/-- Where the rule answers, a name is declared that a line break stands behind. -/
theorem exists_declares_of_closure_answers (answers : closureHead.Answers wrapClosureAt before after) :
    ∃ char, CharClass.isBlank char ∧ char ≠ ' ' ∧ Declares [char] after := by
  obtain ⟨name, head, _, _, body, rest, is_head, -, rfl⟩ := closure_answers_iff.1 answers
  rw [List.append_assoc]
  exact is_head.exists_declares _

/-- An enum that is filled in a closure, and what the rule makes of it. -/
def ClosureSwaps (old new : List Char) : Prop :=
  ∃ name head first members body, IsClosureHead name name head ∧
    IsClosureBody name first first members body ∧ old = head ++ body ∧ new = closureText name members

/-- What the rule makes is left alone, and nothing around it is taken because of it. -/
theorem isRecasting_closure : Pattern.IsRecasting closureHead wrapClosureAt ClosureSwaps where
  advances := by
    intro cursor found matched
    obtain ⟨after_eq, taken⟩ := Pattern.takes_of_matchAt? matched
    obtain ⟨name, parameter, is_head, -⟩ := takes_closureHead.1 taken
    obtain ⟨tail, text_eq, -⟩ := is_head.exists_cons
    rw [after_eq, text_eq, List.length_append, List.length_cons]
    omega
  swaps := by
    intro before after found new stop matched answered
    obtain ⟨name, head, first, members, body, is_head, is_body, after_eq, stop_eq, new_eq⟩ :=
      exists_of_wrapClosureAt matched answered
    obtain ⟨tail, head_eq, -⟩ := is_head.exists_cons
    exact ⟨head ++ body, by simp [head_eq], ⟨name, head, first, members, body, is_head, is_body, rfl, new_eq⟩,
      after_eq, stop_eq⟩
  answers_of_rewritten := by
    intro before after out result _ rewritten answers
    obtain ⟨name, head, first, members, body, more, is_head, is_body, rfl⟩ := closure_answers_iff.1 answers
    have avoids : Avoids toMarked (head ++ body) :=
      is_head.avoids_toMarked.append (is_body.avoids_toMarked is_head.1.2)
    obtain ⟨rest, rfl, -⟩ := rewritten.exists_append fun front back old new rest part_eq filled swaps same => by
      obtain ⟨name', _, _, members', _, is_head', -, -, rfl⟩ := swaps
      apply avoids front back more part_eq filled
      rw [same]
      exact declares_closureText is_head'.1.2 _ _
    exact closure_answers_iff.2 ⟨name, head, first, members, body, rest, is_head, is_body, rfl⟩
  inside_match := by
    intro before after found first last matched text_eq begun filled out rest answers
    obtain ⟨-, taken⟩ := Pattern.takes_of_matchAt? matched
    obtain ⟨name, parameter, is_head, -⟩ := takes_closureHead.1 taken
    obtain ⟨tail, head_eq, avoids⟩ := is_head.exists_cons
    obtain ⟨char, first, rfl⟩ := List.exists_cons_of_ne_nil begun
    obtain ⟨-, tail_eq⟩ := List.cons_eq_cons.1 (head_eq.symm.trans text_eq)
    obtain ⟨char, -, -, declares⟩ := exists_declares_of_closure_answers answers
    exact avoids [char] first last rest tail_eq filled declares
  inside_new := by
    intro old first last swaps filled out rest answers
    obtain ⟨name, _, _, members, _, is_head, ⟨_, -, is_members, -⟩, -, new_eq⟩ := swaps
    obtain ⟨char, blank, other, declares⟩ := exists_declares_of_closure_answers answers
    exact closureText_avoids is_head.1.2 is_members blank other first last rest new_eq.symm filled declares

end Enum
end Shakedown
