import Mathlib.Tactic.Simproc.ExistsAndEq
import Shakedown.Proofs.Bundle.Settling

/-!
# Subclasses in bundled text

The rule for subclasses looks for the declaration of a variable at the start of a line, whose value is a
closure that sets up inheritance.
-/

namespace Shakedown
namespace Marking

open Marker

/-! ## What the rule looks for -/

/-- The declaration of a variable up to its value. -/
def IsDeclaration (head : List Char) : Prop :=
  ∃ name : List Char, name ≠ [] ∧ (∀ char ∈ name, !CharClass.isBlank char) ∧
    head = "var ".toList ++ (name ++ " = ".toList)

/-- A closure that opens with the call that sets up inheritance. -/
def IsSubclassOpening (body : List Char) : Prop :=
  ∃ first receiver base last : List Char, Pattern.IsLineBreak first ∧
    (∀ char ∈ receiver, CharClass.isWord char) ∧ base ≠ [] ∧ (∀ char ∈ base, CharClass.isWord char) ∧
    Pattern.IsLineBreak last ∧
    body = "(function (_super) \x7b".toList ++ (first ++ ("    ".toList ++ (receiver ++
      ("__extends(".toList ++ (base ++ (", _super);".toList ++ last))))))

open Pattern hiding some in
theorem of_takes_subclassOpening {before text rest : List Char} {noted : Groups}
    (takes : subclassOpening.Takes before text rest [] noted) :
    (∀ char, before.head? = some char → char = '\n') ∧ ∃ head body, text = head ++ body ∧
      (IsDeclaration head ∧ IsSubclassOpening body) ∧
      noted.lookup 1 = some head ∧ noted.lookup 3 = some body := by
  simp only [subclassOpening, declarationStart, takes_seq, takes_group, takes_all_cons, takes_all_nil,
    takes_literal, takes_lineStart, takes_lineBreak, visible, takes_some_one, word, takes_many_one,
    and_assoc, existsAndEq, true_and, List.append_nil, List.nil_append] at takes
  obtain ⟨name, first, receiver, base, last, rfl, opens, filled, visible, first_break, receiver_word,
    base_filled, base_word, last_break, rfl⟩ := takes
  exact ⟨opens, _, _, rfl, ⟨⟨name, filled, visible, rfl⟩, first, receiver, base, last, first_break,
    receiver_word, base_filled, base_word, last_break, rfl⟩, rfl, rfl⟩

open Pattern hiding some in
theorem exists_takes_subclassOpening {before head body : List Char} (rest : List Char)
    (opens : ∀ char, before.head? = some char → char = '\n')
    (fits : IsDeclaration head ∧ IsSubclassOpening body) :
    ∃ noted, subclassOpening.Takes before (head ++ body) rest [] noted := by
  obtain ⟨⟨name, filled, visible, rfl⟩, first, receiver, base, last, first_break, receiver_word,
    base_filled, base_word, last_break, rfl⟩ := fits
  simp only [subclassOpening, declarationStart, takes_seq, takes_group, takes_all_cons, takes_all_nil,
    takes_literal, takes_lineStart, takes_lineBreak, Pattern.visible, takes_some_one, word,
    takes_many_one, and_assoc, existsAndEq, true_and, and_true, List.append_nil, List.nil_append]
  exact ⟨name, first, receiver, base, last, rfl, opens, filled, visible, first_break, receiver_word,
    base_filled, base_word, last_break⟩

/-! ## The form -/

theorem newline_notMem_of_isWord {text : List Char} (word : ∀ char ∈ text, CharClass.isWord char) :
    '\n' ∉ text := by
  intro member
  exact absurd (word _ member) (by decide)

theorem newline_notMem_of_isVisible {text : List Char}
    (visible : ∀ char ∈ text, !CharClass.isBlank char) : '\n' ∉ text := by
  intro member
  exact absurd (visible _ member) (by decide)

theorem slash_notMem_of_isLineBreak {text : List Char} (line_break : Pattern.IsLineBreak text) :
    '/' ∉ text := by
  obtain rfl | rfl := line_break <;> decide

theorem IsSubclassOpening.slash_notMem {body : List Char} (opening : IsSubclassOpening body) :
    '/' ∉ body := by
  obtain ⟨first, receiver, base, last, first_break, receiver_word, -, base_word, last_break, rfl⟩ :=
    opening
  simp only [List.mem_append, not_or]
  exact ⟨by decide, slash_notMem_of_isLineBreak first_break, by decide,
    slash_notMem_of_isWord receiver_word, by decide, slash_notMem_of_isWord base_word, by decide,
    slash_notMem_of_isLineBreak last_break⟩

/-- A subclass opens with two lines, the second of which is indented. -/
theorem IsSubclassOpening.exists_lines {body : List Char} (opening : IsSubclassOpening body) :
    ∃ first second, '\n' ∉ first ∧ '\n' ∉ second ∧
      body = first ++ '\n' :: ((' ' :: second) ++ ['\n']) := by
  obtain ⟨first, receiver, base, last, first_break, receiver_word, -, base_word, last_break, rfl⟩ :=
    opening
  have receiver_free := newline_notMem_of_isWord receiver_word
  have base_free := newline_notMem_of_isWord base_word
  obtain ⟨first', rfl, first_free⟩ : ∃ first', first = first' ++ ['\n'] ∧ '\n' ∉ first' := by
    obtain rfl | rfl := first_break
    · exact ⟨[], rfl, by decide⟩
    · exact ⟨['\r'], rfl, by decide⟩
  obtain ⟨last', rfl, last_free⟩ : ∃ last', last = last' ++ ['\n'] ∧ '\n' ∉ last' := by
    obtain rfl | rfl := last_break
    · exact ⟨[], rfl, by decide⟩
    · exact ⟨['\r'], rfl, by decide⟩
  refine ⟨"(function (_super) \x7b".toList ++ first', "   ".toList ++ (receiver ++
    ("__extends(".toList ++ (base ++ (", _super);".toList ++ last')))), ?_, ?_, ?_⟩
  · simp only [List.mem_append, not_or]
    exact ⟨by decide, first_free⟩
  · simp only [List.mem_append, not_or]
    exact ⟨by decide, receiver_free, by decide, base_free, by decide, last_free⟩
  · simp

/-- Behind a line break, the second line of a subclass is indented. -/
theorem IsSubclassOpening.second_line {first last : List Char}
    (opening : IsSubclassOpening (first ++ '\n' :: last)) : last = [] ∨ ∃ more, last = ' ' :: more := by
  obtain ⟨line, second, line_free, second_free, same⟩ := opening.exists_lines
  have indented_free : '\n' ∉ ' ' :: second := by
    simpa using second_free
  obtain ⟨-, rfl⟩ | ⟨between, rfl, behind⟩ := Text.eq_or_exists_of_append_cons line_free same.symm
  · exact .inr ⟨second ++ ['\n'], rfl⟩
  · obtain ⟨-, rfl⟩ | ⟨_, -, left⟩ := Text.eq_or_exists_of_append_cons indented_free behind
    · exact .inl rfl
    · simp at left

theorem IsDeclaration.newline_notMem {head : List Char} (declaration : IsDeclaration head) :
    '\n' ∉ head := by
  obtain ⟨name, -, visible, rfl⟩ := declaration
  simp only [List.mem_append, not_or]
  exact ⟨by decide, newline_notMem_of_isVisible visible, by decide⟩

theorem IsDeclaration.getLast?_eq {head : List Char} (declaration : IsDeclaration head) :
    head.getLast? = some ' ' := by
  obtain ⟨name, -, -, rfl⟩ := declaration
  rw [← List.append_assoc, List.getLast?_append_of_ne_nil _ (by decide)]
  rfl

/-- What stands behind a declaration, up to markers, is not taken up by the declaration. -/
theorem IsDeclaration.append_inj {head head' back back' : List Char} (declaration : IsDeclaration head)
    (declaration' : IsDeclaration head') (same : head ++ back = head' ++ back') : back = back' := by
  obtain ⟨name, -, visible, rfl⟩ := declaration
  obtain ⟨name', -, visible', rfl⟩ := declaration'
  have behind : name ++ ' ' :: ("= ".toList ++ back) = name' ++ ' ' :: ("= ".toList ++ back') := by
    simpa using same
  obtain ⟨-, assigned⟩ := Text.append_cons_inj (blank_notMem_of_isVisible visible)
    (blank_notMem_of_isVisible visible') behind
  exact List.append_cancel_left assigned

/-- A subclass: the declaration of a variable, then a closure that sets up inheritance. -/
def subclassForm : Form where
  Opens last := ∀ char, last = some char → char = '\n'
  Fits head body := IsDeclaration head ∧ IsSubclassOpening body
  opens_none := by simp
  opens_behind := by
    rintro head body ⟨-, opening⟩
    obtain ⟨first, second, -, -, rfl⟩ := opening.exists_lines
    rw [← List.cons_append, ← List.append_assoc, ← List.append_assoc, List.getLast?_concat]
    simp
  headed := true
  head_ends _ fits := fits.1.getLast?_eq
  head_eq_nil headless := absurd headless (by decide)
  starts := by
    rintro head body ⟨⟨name, -, -, rfl⟩, -⟩
    exact ⟨'v', _, rfl, by decide⟩
  outside := by
    rintro head body rest ⟨⟨name, -, -, rfl⟩, -⟩
    exact outside_of_notMem [] 'v' List.not_mem_nil (by decide)
  markable := by
    rintro head body rest ⟨-, ⟨first, receiver, base, last, -, -, -, -, -, rfl⟩⟩
    exact ⟨outside_of_notMem [] '(' List.not_mem_nil (by decide),
      '(', _, rfl, by decide, by decide⟩
  opens_of_slash _ opens := absurd (opens '/' rfl) (by decide)
  fits_of_inserted := by
    rintro head body rest text inserted ⟨⟨name, filled, visible, rfl⟩, opening⟩
    simp only [List.append_assoc] at inserted
    obtain ⟨behind, rfl, behind_inserted⟩ := inserted.exists_append _ (by decide)
    obtain ⟨name', assigned, rfl, among, filled', assigned_inserted⟩ :=
      Inserted.exists_append_cons name ' ' behind_inserted (.inl rfl)
    obtain ⟨opened, rfl, opened_inserted⟩ :=
      Inserted.exists_append "= ".toList assigned_inserted (by decide)
    obtain ⟨rest', rfl, -⟩ := opened_inserted.exists_append _ (isApart_of_notMem opening.slash_notMem)
    refine ⟨"var ".toList ++ (name' ++ " = ".toList), body, rest', by simp, ⟨name', filled' filled, ?_, rfl⟩,
      opening⟩
    exact fun char member => visible char (among.subset member)
  not_inside := by
    rintro head first last rest head' body' rest' ⟨declaration, opening⟩ ⟨declaration', -⟩ filled inside
      opens same
    obtain ⟨name, -, -, rfl⟩ := declaration'
    obtain ⟨first', rfl⟩ : ∃ first', first = first' ++ ['\n'] := by
      cases first using List.reverseRecOn with
      | nil =>
          rw [List.append_nil] at opens
          exact absurd (opens ' ' declaration.getLast?_eq) (by decide)
      | append_singleton first' char =>
          rw [← List.append_assoc, List.getLast?_concat] at opens
          exact ⟨first', by rw [opens char rfl]⟩
    rw [List.append_assoc] at opening
    obtain rfl | ⟨more, rfl⟩ := opening.second_line
    · contradiction
    · exact absurd (List.cons_eq_cons.1 same).1 (by decide)
  blocked := by
    rintro front back body head' body' rest' more ⟨declaration, -⟩ filled opens ⟨declaration', opening'⟩ same
    cases front using List.reverseRecOn with
    | nil =>
        have assigned := declaration.append_inj declaration' same
        obtain ⟨_, _, _, _, -, -, -, -, -, rfl⟩ := opening'
        exact absurd (List.cons_eq_cons.1 assigned).1 (by decide)
    | append_singleton front char =>
        rw [List.getLast?_concat] at opens
        obtain rfl := opens (by simp) char rfl
        exact declaration.newline_notMem (by simp)

/-- The rule for subclasses. -/
theorem isMarkedBy_subclassOpening :
    subclassForm.IsMarkedBy subclassOpening (fun found => some (markGroup3 found)) :=
  isMarkedBy_markGroup3 rfl of_takes_subclassOpening exists_takes_subclassOpening

end Marking
end Shakedown
