import Mathlib.Data.List.Infix
import Shakedown.Proofs.Pattern.Takes
import Shakedown.Proofs.Text.First

/-!
# Where declarations begin

The rules for enums look for the keyword of a declaration, a name and what follows it. A part of a text
avoids such a declaration when none begins inside of it, whatever stands behind the part. Runs of
characters that are no blanks are looked at one by one: only a run that ends like the keyword and has a
space behind it can be the start of a declaration.
-/

namespace Shakedown
namespace Enum

/-- A text without blanks. -/
def IsVisible (text : List Char) : Prop :=
  ∀ char ∈ text, !CharClass.isBlank char

section Runs

variable {run run' rest rest' : List Char} {char char' : Char}

theorem isVisible_of_all (visible : run.all fun char => !CharClass.isBlank char) : IsVisible run :=
  List.all_eq_true.1 visible

theorem IsVisible.append (visible : IsVisible run) (visible' : IsVisible run') : IsVisible (run ++ run') :=
  List.forall_mem_append.2 ⟨visible, visible'⟩

theorem IsVisible.cons (visible : IsVisible run) (own : CharClass.isBlank char = false) :
    IsVisible (char :: run) :=
  List.forall_mem_cons.2 ⟨by rw [own]; rfl, visible⟩

theorem IsVisible.of_part (visible : IsVisible run) (part : run' <:+: run) : IsVisible run' :=
  fun char member => visible char (part.subset member)

theorem IsVisible.notMem (visible : IsVisible run) (blank : CharClass.isBlank char) : char ∉ run := by
  intro member
  simpa [blank] using visible char member

/-- The first blank takes a text apart in one way. -/
theorem IsVisible.append_cons_inj (visible : IsVisible run) (visible' : IsVisible run')
    (blank : CharClass.isBlank char) (blank' : CharClass.isBlank char')
    (same : run ++ char :: rest = run' ++ char' :: rest') : run = run' ∧ char = char' ∧ rest = rest' := by
  obtain ⟨middle, run_eq, rest_eq⟩ | ⟨middle, run_eq, rest_eq⟩ := List.append_eq_append_iff.1 same
  · cases middle with
    | nil =>
        obtain ⟨rfl, rfl⟩ := List.cons_eq_cons.1 rest_eq
        exact ⟨by simpa using run_eq.symm, rfl, rfl⟩
    | cons first middle =>
        obtain ⟨rfl, -⟩ := List.cons_eq_cons.1 rest_eq
        exact absurd (run_eq ▸ by simp) (visible'.notMem blank)
  · cases middle with
    | nil =>
        obtain ⟨rfl, rfl⟩ := List.cons_eq_cons.1 rest_eq
        exact ⟨by simpa using run_eq, rfl, rfl⟩
    | cons first middle =>
        obtain ⟨rfl, -⟩ := List.cons_eq_cons.1 rest_eq
        exact absurd (run_eq ▸ by simp) (visible.notMem blank')

/-- A line break begins with a blank that is no space. -/
theorem exists_cons_of_isLineBreak (line_break : Pattern.IsLineBreak run) :
    ∃ char rest, run = char :: rest ∧ CharClass.isBlank char ∧ char ≠ ' ' := by
  obtain rfl | rfl := line_break
  · exact ⟨'\n', [], rfl, by decide, by decide⟩
  · exact ⟨'\r', ['\n'], rfl, by decide, by decide⟩

theorem isLineBreak_append_inj (line_break : Pattern.IsLineBreak run)
    (line_break' : Pattern.IsLineBreak run') (same : run ++ rest = run' ++ rest') : run = run' := by
  obtain rfl | rfl := line_break <;> obtain rfl | rfl := line_break'
  · rfl
  · exact absurd (List.cons_eq_cons.1 same).1 (by decide)
  · exact absurd (List.cons_eq_cons.1 same).1 (by decide)
  · rfl

/-- The first line break takes a text apart in one way. -/
theorem IsVisible.append_lineBreak_inj {last last' : List Char} (visible : IsVisible run)
    (visible' : IsVisible run') (line_break : Pattern.IsLineBreak last)
    (line_break' : Pattern.IsLineBreak last') (same : run ++ (last ++ rest) = run' ++ (last' ++ rest')) :
    run = run' ∧ last = last' ∧ rest = rest' := by
  obtain ⟨char, more, last_eq, blank, -⟩ := exists_cons_of_isLineBreak line_break
  obtain ⟨char', more', last_eq', blank', -⟩ := exists_cons_of_isLineBreak line_break'
  have split : run ++ char :: (more ++ rest) = run' ++ char' :: (more' ++ rest') := by
    simpa [last_eq, last_eq'] using same
  obtain ⟨rfl, -, -⟩ := visible.append_cons_inj visible' blank blank' split
  have ended := List.append_cancel_left same
  obtain rfl := isLineBreak_append_inj line_break line_break' ended
  exact ⟨rfl, rfl, List.append_cancel_left ended⟩

end Runs

/-! ## Declarations -/

/-- A name stands at the front of a text, and `follows` behind it. -/
def Names (follows text : List Char) : Prop :=
  ∃ name more : List Char, IsVisible name ∧ text = name ++ (follows ++ more)

/-- The declaration of a name, with `follows` behind the name, stands at the front of a text. -/
def Declares (follows text : List Char) : Prop :=
  ∃ named, text = "var ".toList ++ named ∧ Names follows named

/-- No declaration begins inside of the part, whatever stands behind it. -/
def Avoids (follows part : List Char) : Prop :=
  ∀ front back rest, part = front ++ back → back ≠ [] → ¬Declares follows (back ++ rest)

variable {follows part other run tail : List Char} {char : Char}

/-- Behind a run, what follows the name is what stands behind the run. -/
theorem names_iff {blank : Char} (visible : IsVisible run) (starts : CharClass.isBlank blank)
    (ends : CharClass.isBlank char) :
    Names (blank :: follows) (run ++ char :: tail) ↔ char = blank ∧ follows <+: tail := by
  constructor
  · rintro ⟨name, more, name_visible, same⟩
    obtain ⟨-, rfl, rfl⟩ := visible.append_cons_inj name_visible ends starts same
    exact ⟨rfl, List.prefix_append _ _⟩
  · rintro ⟨rfl, more, rfl⟩
    exact ⟨run, more, visible, rfl⟩

theorem Declares.head? {text : List Char} (declares : Declares follows text) : text.head? = some 'v' := by
  obtain ⟨named, rfl, -⟩ := declares
  rfl

theorem avoids_nil : Avoids follows [] := by
  intro front back rest part_eq filled
  exact absurd (List.append_eq_nil_iff.1 part_eq.symm).2 filled

theorem Avoids.append (avoids : Avoids follows part) (also_avoids : Avoids follows other) :
    Avoids follows (part ++ other) := by
  intro front back rest part_eq filled
  obtain ⟨middle, -, other_eq⟩ | ⟨middle, front_eq, rfl⟩ := List.append_eq_append_iff.1 part_eq
  · exact also_avoids middle back rest other_eq filled
  · by_cases done : middle = []
    · subst done
      exact also_avoids [] other rest rfl (by simpa using filled)
    · rw [List.append_assoc]
      exact avoids front middle (other ++ rest) front_eq done

theorem avoids_of_notMem (free : 'v' ∉ part) : Avoids follows part := by
  rintro front back rest rfl filled declares
  obtain ⟨first, back, rfl⟩ := List.exists_cons_of_ne_nil filled
  obtain rfl : first = 'v' := Option.some.inj declares.head?
  exact free (by simp)

theorem notMem_of_isLineBreak (line_break : Pattern.IsLineBreak part) : 'v' ∉ part := by
  obtain rfl | rfl := line_break <;> decide

theorem avoids_flatten {parts : List (List Char)} (each : ∀ part ∈ parts, Avoids follows part) :
    Avoids follows parts.flatten := by
  induction parts with
  | nil => exact avoids_nil
  | cons part parts ih =>
      obtain ⟨first, others⟩ := List.forall_mem_cons.1 each
      exact first.append (ih others)

/-- A run that ends in a character which the keyword does not hold. -/
theorem avoids_run (visible : IsVisible run) (ends : run.getLast? = some char) (closed : char ∉ "var".toList) :
    Avoids follows run := by
  rintro front back rest rfl filled ⟨named, text_eq, -⟩
  have back_visible : IsVisible back := visible.of_part (List.suffix_append front back).isInfix
  have text_eq : back ++ rest = "var".toList ++ ' ' :: named := text_eq
  obtain ⟨middle, keyword_eq, -⟩ | ⟨middle, back_eq, behind⟩ := List.append_eq_append_iff.1 text_eq
  · have last_eq : (front ++ back).getLast? = back.getLast? := List.getLast?_append_of_ne_nil _ filled
    have among : char ∈ back := List.mem_of_getLast? (last_eq.symm.trans ends)
    exact closed (keyword_eq ▸ List.mem_append_left _ among)
  · cases middle with
    | nil =>
        obtain rfl : back = "var".toList := by simpa using back_eq
        have last_eq : (front ++ "var".toList).getLast? = "var".toList.getLast? :=
          List.getLast?_append_of_ne_nil _ filled
        exact closed (List.mem_of_getLast? (last_eq.symm.trans ends))
    | cons char middle =>
        obtain ⟨rfl, -⟩ := List.cons_eq_cons.1 behind
        have among : ' ' ∈ back := back_eq ▸ by simp
        exact back_visible.notMem (by decide) among

/-- A run with a space behind it begins no declaration unless a name and what follows it come next. -/
theorem avoids_run_space (visible : IsVisible run) (behind : Avoids follows tail)
    (unnamed : "var".toList <:+ run → ∀ rest, ¬Names follows (tail ++ rest)) :
    Avoids follows (run ++ ' ' :: tail) := by
  rintro front back rest part_eq filled declares
  obtain ⟨middle, -, tail_eq⟩ | ⟨middle, rfl, rfl⟩ := List.append_eq_append_iff.1 part_eq
  · have spaced : Avoids follows ([' '] ++ tail) := (avoids_of_notMem (by decide)).append behind
    exact spaced middle back rest tail_eq filled declares
  · obtain ⟨named, text_eq, names⟩ := declares
    have same : middle ++ ' ' :: (tail ++ rest) = "var".toList ++ ' ' :: named := by simpa using text_eq
    have middle_visible : IsVisible middle := visible.of_part (List.suffix_append front middle).isInfix
    obtain ⟨rfl, -, rfl⟩ := middle_visible.append_cons_inj (isVisible_of_all (by decide)) (by decide)
      (by decide) same
    exact unnamed (List.suffix_append _ _) rest names

/-- The keyword begins no declaration where what follows begins none and no name stands behind it. -/
theorem avoids_keyword (behind : Avoids follows tail) (unnamed : ∀ rest, ¬Names follows (tail ++ rest)) :
    Avoids follows ("var ".toList ++ tail) := by
  have visible : IsVisible "var".toList := isVisible_of_all (by decide)
  exact avoids_run_space visible behind fun _ => unnamed

/-- The keyword without its first letter begins no declaration where what follows begins none. -/
theorem avoids_keyword_tail (behind : Avoids follows tail) : Avoids follows ("ar ".toList ++ tail) := by
  have visible : IsVisible "ar".toList := isVisible_of_all (by decide)
  exact avoids_run_space visible behind fun ends => absurd ends (by decide)

/-- A run with another blank behind it begins no declaration. -/
theorem avoids_run_blank (visible : IsVisible run) (blank : CharClass.isBlank char) (other : char ≠ ' ')
    (behind : Avoids follows tail) : Avoids follows (run ++ char :: tail) := by
  rintro front back rest part_eq filled declares
  obtain ⟨middle, -, tail_eq⟩ | ⟨middle, rfl, rfl⟩ := List.append_eq_append_iff.1 part_eq
  · have not_keyword : 'v' ∉ [char] := by
      simp only [List.mem_singleton]
      rintro rfl
      exact absurd blank (by decide)
    have broken : Avoids follows ([char] ++ tail) := (avoids_of_notMem not_keyword).append behind
    exact broken middle back rest tail_eq filled declares
  · obtain ⟨named, text_eq, -⟩ := declares
    have same : middle ++ char :: (tail ++ rest) = "var".toList ++ ' ' :: named := by simpa using text_eq
    have middle_visible : IsVisible middle := visible.of_part (List.suffix_append front middle).isInfix
    obtain ⟨-, char_eq, -⟩ := middle_visible.append_cons_inj (isVisible_of_all (by decide)) blank
      (by decide) same
    exact other char_eq

/-- A run that a character ends which the keyword does not hold. -/
theorem avoids_run_concat (visible : IsVisible run) (own : CharClass.isBlank char = false)
    (closed : char ∉ "var".toList) : Avoids follows (run ++ [char]) := by
  have run_visible : IsVisible (run ++ [char]) := visible.append (IsVisible.cons (isVisible_of_all rfl) own)
  exact avoids_run run_visible List.getLast?_concat closed

/-! ## Assignments -/

/-- What stands behind a name that something is assigned to. -/
abbrev toValue : List Char := [' ', '=', ' ']

/-- What stands behind a name that an object without members is assigned to. -/
abbrev toEmpty : List Char := toValue ++ ['\x7b']

/-- What stands behind a name that something marked is assigned to. -/
abbrev toMarked : List Char := toValue ++ ['/']

theorem eq_of_names {first : Char} {rest : List Char} (visible : IsVisible run)
    (names : Names (toValue ++ [first]) (run ++ ' ' :: '=' :: ' ' :: char :: rest)) : first = char := by
  obtain ⟨-, front⟩ := (names_iff visible (by decide) (by decide)).1 names
  have front : '=' :: ' ' :: [first] <+: '=' :: ' ' :: char :: rest := front
  simpa using front

/-- The sign of an assignment is no name that another sign stands behind. -/
theorem not_names_sign {more rest : List Char} (other : char ≠ '=') :
    ¬Names (toValue ++ more) ('=' :: ' ' :: char :: rest) := by
  intro names
  have visible : IsVisible ['='] := isVisible_of_all (by decide)
  have names : Names (toValue ++ more) (['='] ++ ' ' :: char :: rest) := names
  obtain ⟨-, front⟩ := (names_iff visible (by decide) (by decide)).1 names
  exact other (List.cons_prefix_cons.1 front).1.symm

/-- Behind the keyword of a declaration with a value no other declaration begins before the value. -/
theorem avoids_assigned {more rest : List Char} (visible : IsVisible run) (other : char ≠ '=')
    (behind : Avoids (toValue ++ more) (char :: rest)) :
    Avoids (toValue ++ more) (run ++ ' ' :: '=' :: ' ' :: char :: rest) := by
  have signed : Avoids (toValue ++ more) (['=', ' '] ++ char :: rest) :=
    (avoids_of_notMem (by decide)).append behind
  exact avoids_run_space visible signed fun _ after => not_names_sign other

/-- A declaration with another value. -/
theorem avoids_declaration {first : Char} {rest : List Char} (visible : IsVisible run) (other : char ≠ '=')
    (value : first ≠ char) (behind : Avoids (toValue ++ [first]) (char :: rest)) :
    Avoids (toValue ++ [first]) ("var ".toList ++ (run ++ ' ' :: '=' :: ' ' :: char :: rest)) := by
  apply avoids_keyword (avoids_assigned visible other behind)
  intro after names
  rw [List.append_assoc] at names
  exact value (eq_of_names visible names)

/-- Behind its first letter, a declaration with a value. -/
theorem avoids_declaration_tail {more rest : List Char} (visible : IsVisible run) (other : char ≠ '=')
    (behind : Avoids (toValue ++ more) (char :: rest)) :
    Avoids (toValue ++ more) ("ar ".toList ++ (run ++ ' ' :: '=' :: ' ' :: char :: rest)) :=
  avoids_keyword_tail (avoids_assigned visible other behind)

/-- In a declaration with a value no name is declared that a line break stands behind. -/
theorem avoids_unassigned (visible : IsVisible run) (blank : CharClass.isBlank char) (other : char ≠ ' ')
    (behind : Avoids [char] tail) :
    Avoids [char] ("var ".toList ++ (run ++ ' ' :: '=' :: ' ' :: tail)) := by
  have ended : ∀ {run rest}, IsVisible run → ¬Names [char] (run ++ ' ' :: rest) := by
    intro run rest visible names
    exact other ((names_iff visible blank (by decide)).1 names).1.symm
  have signed : Avoids [char] (['=', ' '] ++ tail) := (avoids_of_notMem (by decide)).append behind
  have sign_visible : IsVisible ['='] := isVisible_of_all (by decide)
  have named : Avoids [char] (run ++ ' ' :: (['=', ' '] ++ tail)) :=
    avoids_run_space visible signed fun _ rest => ended sign_visible
  apply avoids_keyword named
  intro rest
  rw [List.append_assoc]
  exact ended visible

end Enum
end Shakedown
