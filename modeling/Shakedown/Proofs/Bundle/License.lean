import Mathlib.Tactic.Simproc.ExistsAndEq
import Shakedown.Bundle.License
import Shakedown.Proofs.Pattern.Repetition
import Shakedown.Proofs.Text.Infix

/-!
# What goes with the licenses

Taking out licenses takes out whole comments that open with two stars and hold `@license`. There is
one exception: behind an empty comment the search goes on, so that everything from there to the next
end of a comment goes with the license in it.
-/

namespace Shakedown
namespace License

/-! ## Ends of comments -/

/-- The text holds the end of a comment. -/
def HoldsEnd (text : List Char) : Prop :=
  "*/".toList <:+: text

instance (text : List Char) : Decidable (HoldsEnd text) :=
  inferInstanceAs (Decidable (_ <:+: _))

variable {char : Char} {text front back : List Char}

theorem not_holdsEnd_nil : ¬HoldsEnd [] := by
  decide

theorem holdsEnd_cons_iff :
    HoldsEnd (char :: text) ↔ HoldsEnd text ∨ (char = '*' ∧ text.head? = some '/') := by
  have ends_eq : "*/".toList = ['*', '/'] := rfl
  rw [HoldsEnd, List.infix_cons_iff, ends_eq, List.cons_prefix_cons, or_comm, @eq_comm _ '*' char]
  cases text with
  | nil => simp [HoldsEnd]
  | cons next others =>
      rw [List.cons_prefix_cons, List.head?_cons, Option.some.injEq, @eq_comm _ '/' next]
      simp [HoldsEnd]

/-- The end of a comment stands in one of two parts, or begins at the end of the one and ends with
the start of the other. -/
theorem holdsEnd_append_iff :
    HoldsEnd (front ++ back) ↔
      (HoldsEnd front ∨ HoldsEnd back) ∨ (front.getLast? = some '*' ∧ back.head? = some '/') := by
  induction front with
  | nil => simp [not_holdsEnd_nil]
  | cons char rest ih =>
      rw [List.cons_append, holdsEnd_cons_iff, holdsEnd_cons_iff, ih]
      cases rest with
      | nil => simp [not_holdsEnd_nil]
      | cons second others =>
          simp only [List.cons_append, List.head?_cons, List.getLast?_cons_cons]
          grind

theorem not_holdsEnd_append (first : ¬HoldsEnd front) (second : ¬HoldsEnd back)
    (apart : front.getLast? ≠ some '*' ∨ back.head? ≠ some '/') : ¬HoldsEnd (front ++ back) := by
  rw [holdsEnd_append_iff]
  rintro ((held | held) | ⟨last, head⟩)
  · exact first held
  · exact second held
  · exact apart.elim (· last) (· head)

theorem not_holdsEnd_of_append (free : ¬HoldsEnd (front ++ back)) :
    ¬HoldsEnd front ∧ ¬HoldsEnd back := by
  rw [holdsEnd_append_iff, not_or, not_or] at free
  exact free.1

theorem not_holdsEnd_of_stars (stars : ∀ char ∈ text, char = '*') : ¬HoldsEnd text := by
  intro held
  have slash : '/' ∈ text := held.subset (by decide)
  exact absurd (stars _ slash) (by decide)

/-- Every text is taken apart before the stars at its end. -/
theorem exists_stars (text : List Char) :
    ∃ front stars,
      text = front ++ stars ∧ front.getLast? ≠ some '*' ∧ ∀ char ∈ stars, char = '*' := by
  induction text with
  | nil => exact ⟨[], [], rfl, by simp, by simp⟩
  | cons char rest ih =>
      obtain ⟨front, stars, rfl, other, all⟩ := ih
      cases front with
      | cons second others =>
          exact ⟨char :: second :: others, stars, rfl, by simpa using other, all⟩
      | nil =>
          by_cases star : char = '*'
          · exact ⟨[], char :: stars, rfl, by simp, List.forall_mem_cons.2 ⟨star, all⟩⟩
          · exact ⟨[char], stars, rfl, by simpa using star, all⟩

/-! ## What the pattern takes -/

/-- What a comment may hold before further stars: no end, and something else than a star at last. -/
def IsContent (text : List Char) : Prop :=
  ¬HoldsEnd text ∧ text.getLast? ≠ some '*'

/-- One step of the content: something else than a star, or stars before something that is neither a
star nor a slash. -/
def IsStep (text : List Char) : Prop :=
  ∃ stars char, text = stars ++ [char] ∧ (∀ star ∈ stars, star = '*') ∧ char ≠ '*' ∧
    (stars ≠ [] → char ≠ '/')

theorem IsStep.isContent (step : IsStep text) : IsContent text := by
  obtain ⟨stars, char, rfl, all, other, slash⟩ := step
  have single : ¬HoldsEnd [char] := by simp [holdsEnd_cons_iff, not_holdsEnd_nil]
  refine ⟨not_holdsEnd_append (not_holdsEnd_of_stars all) single ?_, by simpa using other⟩
  by_cases empty : stars = []
  · exact .inl (by simp [empty])
  · exact .inr (by simpa using slash empty)

theorem IsContent.append (first : IsContent front) (second : IsContent back) :
    IsContent (front ++ back) := by
  refine ⟨not_holdsEnd_append first.1 second.1 (.inl first.2), ?_⟩
  rw [List.getLast?_append]
  cases last_eq : back.getLast? with
  | none => exact first.2
  | some last => exact fun same => second.2 (last_eq.trans same)

theorem isContent_flatten {parts : List (List Char)} (steps : ∀ part ∈ parts, IsStep part) :
    IsContent parts.flatten := by
  induction parts with
  | nil => exact ⟨not_holdsEnd_nil, by simp⟩
  | cons part parts ih =>
      obtain ⟨step, steps⟩ := List.forall_mem_cons.1 steps
      exact step.isContent.append (ih steps)

/-- Content falls into steps. -/
theorem IsContent.exists_steps (content : IsContent text) :
    ∃ parts : List (List Char), text = parts.flatten ∧ ∀ part ∈ parts, IsStep part := by
  -- the stars before the next step are put aside in front
  suffices general : ∀ stars : List Char, (∀ star ∈ stars, star = '*') → IsContent (stars ++ text) →
      ∃ parts : List (List Char), stars ++ text = parts.flatten ∧ ∀ part ∈ parts, IsStep part from
    general [] (by simp) content
  clear content
  induction text with
  | nil =>
      intro stars all content
      obtain rfl | ⟨others, last, rfl⟩ := List.eq_nil_or_concat stars
      · exact ⟨[], rfl, by simp⟩
      · refine absurd ?_ content.2
        simpa using all last (by simp)
  | cons char rest ih =>
      intro stars all content
      have shifted : stars ++ char :: rest = (stars ++ [char]) ++ rest := by simp
      by_cases star : char = '*'
      · rw [shifted] at content ⊢
        refine ih _ ?_ content
        simpa [or_imp, forall_and] using ⟨all, star⟩
      · have slash : stars ≠ [] → char ≠ '/' := by
          rintro filled rfl
          refine content.1 (holdsEnd_append_iff.2 (.inr ⟨?_, rfl⟩))
          rw [List.getLast?_eq_some_getLast filled, all _ (List.getLast_mem filled)]
        have rest_content : IsContent ([] ++ rest) := by
          rw [shifted] at content
          refine ⟨(not_holdsEnd_of_append content.1).2, fun last => content.2 ?_⟩
          rw [List.getLast?_append]
          simp only [List.nil_append] at last
          rw [last, Option.some_or]
        obtain ⟨parts, rest_eq, steps⟩ := ih [] (by simp) rest_content
        refine ⟨(stars ++ [char]) :: parts, ?_, List.forall_mem_cons.2 ⟨?_, steps⟩⟩
        · rw [List.flatten_cons, ← rest_eq, shifted, List.nil_append]
        · exact ⟨stars, char, rfl, all, star, slash⟩

section Takes

open Pattern hiding some

variable {before rest : List Char} {groups noted : Groups}

theorem takes_step :
    (choice (one (· != '*')) (seq (Pattern.some (one (· == '*')))
        (one fun char => char != '*' && char != '/'))).Takes before text rest groups noted ↔
      IsStep text ∧ noted = groups := by
  simp only [takes_choice, takes_seq, takes_one, takes_some_one, bne_iff_ne, beq_iff_eq,
    Bool.and_eq_true]
  constructor
  · rintro (⟨⟨char, rfl, other⟩, rfl⟩ | ⟨stars, last, between, rfl, ⟨filled, all, rfl⟩,
      ⟨char, rfl, other, slash⟩, rfl⟩)
    · exact ⟨⟨[], char, rfl, by simp, other, by simp⟩, rfl⟩
    · exact ⟨⟨stars, char, rfl, all, other, fun _ => slash⟩, rfl⟩
  · rintro ⟨⟨stars, char, rfl, all, other, slash⟩, rfl⟩
    by_cases empty : stars = []
    · subst empty
      exact .inl ⟨⟨char, rfl, other⟩, rfl⟩
    · exact .inr ⟨stars, [char], noted, rfl, ⟨empty, all, rfl⟩, ⟨char, rfl, other, slash empty⟩,
        rfl⟩

theorem takes_content :
    content.Takes before text rest groups noted ↔ IsContent text ∧ noted = groups := by
  rw [content, takes_many_of_plain takes_step]
  refine and_congr_left fun _ => ⟨?_, fun is_content => ?_⟩
  · rintro ⟨parts, rfl, steps⟩
    exact isContent_flatten fun part member => (steps part member).2
  · obtain ⟨parts, text_eq, steps⟩ := is_content.exists_steps
    refine ⟨parts, text_eq, fun part member => ⟨?_, steps part member⟩⟩
    obtain ⟨stars, char, part_eq, -⟩ := steps part member
    simp [part_eq]

/-- What is taken as a license: it ends with the first end of a comment behind its first three
characters, and holds `@license`. -/
def IsFound (text : List Char) : Prop :=
  ∃ inner, text = "/**".toList ++ (inner ++ "*/".toList) ∧ ¬HoldsEnd (inner ++ ['*']) ∧
    "@license".toList <:+: inner

/-- No line break or one. -/
def IsLineEnd (text : List Char) : Prop :=
  text = [] ∨ IsLineBreak text

theorem isFound_of_parts {first stars second others : List Char} (first_content : IsContent first)
    (all : ∀ char ∈ stars, char = '*') (second_content : IsContent second)
    (others_all : ∀ char ∈ others, char = '*') :
    IsFound ("/**".toList ++
      (first ++ (stars ++ ("@license".toList ++ (second ++ others))) ++ "*/".toList)) := by
  refine ⟨first ++ (stars ++ ("@license".toList ++ (second ++ others))), rfl, ?_,
    first ++ stars, second ++ others, ?_⟩
  · have further_all : ∀ char ∈ others ++ ['*'], char = '*' := by
      simpa [or_imp, forall_and] using others_all
    have behind := not_holdsEnd_append second_content.1 (not_holdsEnd_of_stars further_all)
      (.inl second_content.2)
    have word_free : ¬HoldsEnd "@license".toList := by decide +kernel
    have word := not_holdsEnd_append word_free behind (.inl (by simp))
    have free := not_holdsEnd_append first_content.1
      (not_holdsEnd_append (not_holdsEnd_of_stars all) word (.inr (by simp))) (.inl first_content.2)
    simpa only [List.append_assoc] using free
  · simp only [List.append_assoc]

theorem of_takes_pattern (takes : pattern.Takes before text rest [] noted) :
    ∃ comment lineEnd, text = comment ++ lineEnd ∧ IsFound comment ∧ IsLineEnd lineEnd := by
  simp only [pattern, takes_all_cons, takes_all_nil, takes_literal, takes_content, takes_many_one,
    takes_some_one, takes_one, Pattern.optional, takes_choice, takes_lineBreak, takes_empty,
    beq_iff_eq, and_assoc, existsAndEq, true_and, List.append_nil] at takes
  obtain ⟨first, stars, second, further, lineEnd, rfl, first_content, all, second_content, filled,
    further_all, line, -⟩ := takes
  obtain rfl | ⟨others, last, rfl⟩ := List.eq_nil_or_concat further
  · exact absurd rfl filled
  rw [List.concat_eq_append] at further_all ⊢
  obtain ⟨others_all, rfl⟩ : (∀ char ∈ others, char = '*') ∧ last = '*' := by
    simpa [or_imp, forall_and] using further_all
  exact ⟨_, lineEnd, by simp, isFound_of_parts first_content all second_content others_all,
    line.symm.imp And.left And.left⟩

theorem exists_takes_pattern (rest : List Char) (found : IsFound text) :
    ∃ noted, pattern.Takes before text rest [] noted := by
  obtain ⟨_, rfl, free, front, back, rfl⟩ := found
  obtain ⟨first, stars, rfl, first_last, all⟩ := exists_stars front
  obtain ⟨second, further, back_eq, second_last, further_all⟩ := exists_stars (back ++ ['*'])
  have filled : further ≠ [] := by
    rintro rfl
    rw [List.append_nil] at back_eq
    exact second_last (by simp [← back_eq])
  have parts_eq : first ++ stars ++ "@license".toList ++ back ++ ['*'] =
      first ++ (stars ++ ("@license".toList ++ (second ++ further))) := by
    simp only [List.append_assoc, ← back_eq]
  rw [parts_eq] at free
  obtain ⟨first_free, free⟩ := not_holdsEnd_of_append free
  have second_free :=
    (not_holdsEnd_of_append (not_holdsEnd_of_append (not_holdsEnd_of_append free).2).2).1
  simp only [pattern, takes_all_cons, takes_all_nil, takes_literal, takes_content, takes_many_one,
    takes_some_one, takes_one, Pattern.optional, takes_choice, takes_lineBreak, takes_empty,
    beq_iff_eq, and_assoc, existsAndEq, true_and, List.append_nil]
  refine ⟨[], first, stars, second, further, [], ?_, ⟨first_free, first_last⟩, all,
    ⟨second_free, second_last⟩, filled, further_all, .inr ⟨rfl, rfl⟩, trivial⟩
  have whole := congrArg (· ++ ['/']) parts_eq
  simpa using whole

end Takes

/-! ## Comments -/

/-- One whole comment: it ends with the first end of a comment behind its opening. -/
def IsComment (text : List Char) : Prop :=
  ∃ inner, text = "/*".toList ++ (inner ++ "*/".toList) ∧ ¬HoldsEnd (inner ++ ['*'])

/-- A whole comment that opens with two stars and holds `@license`. -/
structure IsLicense (text : List Char) : Prop where
  /-- It is one whole comment. -/
  comment : IsComment text
  /-- It opens with two stars. -/
  opens : "/**".toList <+: text
  /-- It holds the word. -/
  names : "@license".toList <:+: text

/-- An empty comment and what follows it up to the next end of a comment, with `@license` in
between. -/
def IsOverrun (text : List Char) : Prop :=
  ∃ inner, text = "/**/".toList ++ (inner ++ "*/".toList) ∧ ¬HoldsEnd (inner ++ ['*']) ∧
    "@license".toList <:+: inner

theorem names_of_append (front back : List Char)
    (front_free : ∀ char ∈ front, char = '/' ∨ char = '*')
    (back_free : ∀ char ∈ back, char = '/' ∨ char = '*')
    (names : "@license".toList <:+: front ++ (text ++ back)) : "@license".toList <:+: text := by
  have apart {part : List Char} (free : ∀ char ∈ part, char = '/' ∨ char = '*') :
      ∀ char ∈ "@license".toList, char ∉ part := by
    intro char member held
    obtain rfl | rfl := free char held <;> exact absurd member (by decide)
  exact Text.infix_of_append_infix (by decide) (apart back_free)
    (Text.infix_of_infix_append (by decide) (apart front_free) names)

/-- What is taken as a license is one, or what an empty comment drags along. -/
theorem isFound_iff : IsFound text ↔ IsLicense text ∨ IsOverrun text := by
  constructor
  · rintro ⟨inner, rfl, free, names⟩
    by_cases slash : inner.head? = some '/'
    · obtain ⟨others, rfl⟩ := List.head?_eq_some_iff.1 slash
      have free : ¬HoldsEnd (['/'] ++ (others ++ ['*'])) := free
      refine .inr ⟨others, rfl, (not_holdsEnd_of_append free).2, ?_⟩
      exact names_of_append ['/'] [] (by simp) (by simp) (by simpa using names)
    · refine .inl ⟨⟨'*' :: inner, rfl, ?_⟩, List.prefix_append _ _, ?_⟩
      · rw [List.cons_append, holdsEnd_cons_iff, not_or]
        refine ⟨free, fun ⟨_, head⟩ => slash ?_⟩
        cases inner with
        | nil => exact absurd head (by decide)
        | cons first others => exact head
      · exact names.trans ⟨"/**".toList, "*/".toList, by simp only [List.append_assoc]⟩
  · rintro (⟨⟨inner, rfl, free⟩, opens, names⟩ | ⟨inner, rfl, free, names⟩)
    · cases inner with
      | nil => exact absurd names (by decide)
      | cons first inner =>
          obtain rfl : first = '*' := by simpa [eq_comm] using opens
          rw [List.cons_append, holdsEnd_cons_iff, not_or] at free
          refine ⟨inner, rfl, free.1, ?_⟩
          exact names_of_append "/**".toList "*/".toList (by simp) (by simp)
            (by simpa using names)
    · refine ⟨'/' :: inner, rfl, ?_, names.trans (List.suffix_cons _ _).isInfix⟩
      rw [List.cons_append, holdsEnd_cons_iff, not_or]
      exact ⟨free, by simp⟩

theorem IsFound.ne_nil (found : IsFound text) : text ≠ [] := by
  rintro rfl
  obtain ⟨_, same, -⟩ := found
  exact absurd same.symm (by simp)

/-- No license begins with an empty comment. -/
theorem IsLicense.not_emptyComment_prefix (license : IsLicense text) : ¬"/**/".toList <+: text := by
  obtain ⟨⟨inner, rfl, free⟩, -, names⟩ := license
  rintro ⟨behind, same⟩
  have same : '*' :: '/' :: behind = inner ++ ['*', '/'] := by simpa using same
  match inner with
  | [] => exact absurd names (by decide +kernel)
  | [_] => simp at same
  | first :: second :: others =>
      obtain ⟨rfl, rfl, -⟩ : '*' = first ∧ '/' = second ∧ _ := by simpa using same
      exact free
        ((List.prefix_append _ _).isInfix : "*/".toList <:+: "*/".toList ++ (others ++ ['*']))

/-! ## Texts without their licenses -/

/-- The second text is the first one without some ranges, each something that may go with at most
one line break behind it. -/
inductive Removes (MayGo : List Char → Prop) : List Char → List Char → Prop
  /-- Nothing is left. -/
  | done : Removes MayGo [] []
  /-- A character stays. -/
  | kept {char : Char} {text result : List Char} :
      Removes MayGo text result → Removes MayGo (char :: text) (char :: result)
  /-- A range goes. -/
  | gone {comment lineEnd text result : List Char} :
      MayGo comment → IsLineEnd lineEnd → Removes MayGo text result →
      Removes MayGo (comment ++ (lineEnd ++ text)) result

theorem Removes.sublist {MayGo : List Char → Prop} {result : List Char}
    (removes : Removes MayGo text result) : result.Sublist text := by
  induction removes with
  | done => exact .slnil
  | kept _ ih => exact .cons_cons _ ih
  | gone _ _ _ ih =>
      exact ih.trans ((List.sublist_append_right _ _).trans (List.sublist_append_right _ _))

section Strip

open Pattern hiding some

variable {cursor : Cursor} {found : Match} {result : List Char}

theorem text_of_matchAt? (matched : pattern.matchAt? cursor = some found) :
    ∃ comment lineEnd, found.text = comment ++ lineEnd ∧ IsFound comment ∧ IsLineEnd lineEnd ∧
      cursor.after = comment ++ (lineEnd ++ found.stop.after) := by
  obtain ⟨before, after⟩ := cursor
  obtain ⟨after_eq, takes⟩ := takes_of_matchAt? matched
  obtain ⟨comment, lineEnd, text_eq, is_found, line⟩ := of_takes_pattern takes
  exact ⟨comment, lineEnd, text_eq, is_found, line, by rw [after_eq, text_eq, List.append_assoc]⟩

theorem advances_pattern : pattern.Advances := by
  intro cursor found matched
  obtain ⟨comment, lineEnd, -, is_found, -, after_eq⟩ := text_of_matchAt? matched
  have filled := List.length_pos_iff.2 is_found.ne_nil
  rw [after_eq, List.length_append, List.length_append]
  omega

/-- A search misses no comment that begins where it looks. -/
theorem not_prefix_of_unmatched (unmatched : pattern.matchAt? cursor = none) {comment : List Char}
    (is_found : IsFound comment) : ¬comment <+: cursor.after := by
  rintro ⟨rest, after_eq⟩
  obtain ⟨before, after⟩ := cursor
  obtain rfl : comment ++ rest = after := after_eq
  obtain ⟨noted, takes⟩ : ∃ noted, pattern.Takes before comment rest [] noted :=
    exists_takes_pattern rest is_found
  exact matchAt?_ne_none_of_takes takes unmatched

/-- A text from which matches are taken out. -/
abbrev Erased : Cursor → List Char → Prop :=
  Substitutes pattern fun found => some ([], found.stop)

theorem removes_of_erased (erased : Erased cursor result) :
    Removes IsFound cursor.after result := by
  induction erased with
  | done => exact .done
  | miss _ _ ih => exact .kept ih
  | kept _ answered => contradiction
  | replaced matched answered _ ih =>
      obtain ⟨rfl, rfl⟩ := Prod.mk.inj (Option.some.inj answered)
      obtain ⟨comment, lineEnd, -, is_found, line, after_eq⟩ := text_of_matchAt? matched
      rw [after_eq]
      exact .gone is_found line ih

/-- A text stays as it is exactly when nothing in it is taken as a license. -/
theorem eq_iff_of_erased (erased : Erased cursor result) :
    result = cursor.after ↔ ∀ comment, IsFound comment → ¬comment <:+: cursor.after := by
  induction erased with
  | done =>
      refine ⟨fun _ comment is_found held => is_found.ne_nil ?_, fun _ => rfl⟩
      exact List.infix_nil.1 held
  | kept _ answered => contradiction
  | replaced matched answered erased _ =>
      obtain ⟨rfl, rfl⟩ := Prod.mk.inj (Option.some.inj answered)
      obtain ⟨comment, lineEnd, -, is_found, -, after_eq⟩ := text_of_matchAt? matched
      constructor
      · intro same
        have shorter := (removes_of_erased erased).sublist.length_le
        have filled := List.length_pos_iff.2 is_found.ne_nil
        have lengths := congrArg List.length same
        rw [after_eq, List.nil_append, List.length_append, List.length_append] at lengths
        omega
      · intro free
        exact absurd (after_eq ▸ List.prefix_append comment _).isInfix (free comment is_found)
  | @miss before after char result unmatched _ ih =>
      rw [List.cons_inj_right, ih]
      refine forall₂_congr fun comment is_found => not_congr ?_
      rw [List.infix_cons_iff]
      exact (or_iff_right (not_prefix_of_unmatched unmatched is_found)).symm

end Strip

/-- Only whole licenses go, or what an empty comment drags along, each with at most one line break,
and all else stays in order. A text stays as it is only if it holds nothing of the kind. -/
theorem removes_strip (text : List Char) :
    Removes (fun comment => IsLicense comment ∨ IsOverrun comment) text (strip text) ∧
      (strip text = text ↔
        ∀ comment, IsLicense comment ∨ IsOverrun comment → ¬comment <:+: text) := by
  have erased : Erased (.ofText text) (strip text) :=
    Pattern.substitutes_erase advances_pattern text
  have removes := removes_of_erased erased
  have same_iff := eq_iff_of_erased erased
  simp only [isFound_iff] at same_iff
  have mayGo_eq : IsFound = fun comment => IsLicense comment ∨ IsOverrun comment :=
    funext fun comment => propext isFound_iff
  exact ⟨mayGo_eq ▸ removes, same_iff⟩

/-- An empty comment, code, and a license. -/
def spanning : List Char :=
  "/**/var a = 1;/** @license */\n".toList

/-- The code between an empty comment and a license goes with both, though the range is not one
comment. -/
theorem not_removes_spanning : ¬Removes IsLicense spanning (strip spanning) := by
  have nothing_left : strip spanning = [] := by decide +kernel
  have opens : "/**/".toList <+: spanning := by decide
  rw [nothing_left]
  generalize spanning = text at opens
  generalize result_eq : ([] : List Char) = result
  intro removes
  cases removes with
  | done => exact absurd opens (by decide)
  | kept => contradiction
  | @gone comment lineEnd text _ license =>
      obtain ⟨inner, comment_eq, -⟩ := license.comment
      have long : "/**/".toList.length ≤ comment.length := by simp [comment_eq]
      exact license.not_emptyComment_prefix
        (List.prefix_of_prefix_length_le opens (List.prefix_append comment (lineEnd ++ text)) long)

end License
end Shakedown
