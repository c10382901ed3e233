import Mathlib.Tactic.Simproc.ExistsAndEq
import Shakedown.Proofs.Bundle.Subclass
import Shakedown.Proofs.Pattern.Repetition

/-!
# Classes in bundled text

The rule for classes looks for the declaration of a variable at the start of a line, whose value is a
closure. The closure opens with lines of comments, if any, and a function that bears the name of the
variable.
-/

namespace Shakedown
namespace Marking

/-! ## What the rule looks for -/

/-- A line that holds a comment or a part of one. -/
def IsCommentLine (text : List Char) : Prop :=
  ∃ opening ∈ ["/**".toList, " *".toList, "*/".toList, "//".toList], ∃ content last : List Char,
    (∀ char ∈ content, char ≠ '\r' ∧ char ≠ '\n') ∧ Pattern.IsLineBreak last ∧
    text = "    ".toList ++ (opening ++ (content ++ last))

/-- A closure that opens with a function of the given name. -/
def IsClassOpening (name body : List Char) : Prop :=
  ∃ (first : List Char) (comments : List (List Char)) (parameters last : List Char),
    Pattern.IsLineBreak first ∧ (∀ line ∈ comments, IsCommentLine line) ∧ ')' ∉ parameters ∧
    Pattern.IsLineBreak last ∧
    body = "(function () \x7b".toList ++ (first ++ (comments.flatten ++ ("    function ".toList ++ (name ++
      ('(' :: (parameters ++ (") \x7b".toList ++ last)))))))

/-- The declaration of a variable, and a closure whose function bears its name. -/
def IsClass (head body : List Char) : Prop :=
  ∃ name : List Char, (name ≠ [] ∧ ∀ char ∈ name, !CharClass.isBlank char) ∧
    head = "var ".toList ++ (name ++ " = ".toList) ∧ IsClassOpening name body

section Takes

variable {before text rest : List Char} {groups noted : Groups}

open Pattern hiding some

theorem takes_commentLine :
    commentLine.Takes before text rest groups noted ↔ IsCommentLine text ∧ noted = groups := by
  have opened : ∀ {before opening rest groups noted},
      (any [literal "/**".toList, literal " *".toList, literal "*/".toList, literal "//".toList]).Takes
        before opening rest groups noted ↔
      opening ∈ ["/**".toList, " *".toList, "*/".toList, "//".toList] ∧ noted = groups := by
    intros
    simp only [takes_any, List.mem_cons, List.not_mem_nil, or_false, or_and_right, exists_or, exists_eq_left,
      takes_literal]
  simp only [commentLine, takes_all_cons, takes_all_nil, takes_literal, opened, takes_many_one,
    takes_lineBreak, IsCommentLine, Bool.and_eq_true, bne_iff_ne, and_assoc, existsAndEq, true_and,
    List.append_nil]
  constructor
  · rintro ⟨opening, content, last, rfl, listed, others, line_break, rfl⟩
    exact ⟨⟨opening, listed, content, last, others, line_break, rfl⟩, rfl⟩
  · rintro ⟨⟨opening, listed, content, last, others, line_break, rfl⟩, rfl⟩
    exact ⟨opening, content, last, rfl, listed, others, line_break, rfl⟩

/-- What the rule finds: the name of the variable is group 2, that of the function group 4. -/
theorem of_takes_classOpening (takes : classOpening.Takes before text rest [] noted) :
    ∃ name function body, text = "var ".toList ++ (name ++ " = ".toList) ++ body ∧
      (name ≠ [] ∧ ∀ char ∈ name, !CharClass.isBlank char) ∧ IsClassOpening function body ∧
      noted.lookup 1 = some ("var ".toList ++ (name ++ " = ".toList)) ∧ noted.lookup 2 = some name ∧
      noted.lookup 3 = some body ∧ noted.lookup 4 = some function := by
  simp only [classOpening, declarationStart, takes_seq, takes_group, takes_all_cons, takes_all_nil,
    takes_literal, takes_lineStart, takes_lineBreak, visible, takes_some_one, takes_few, takes_one,
    takes_many_of_plain takes_commentLine, takes_many_one, bne_iff_ne, and_assoc, existsAndEq, true_and,
    List.append_nil, List.nil_append] at takes
  obtain ⟨name, first, more, char, parameters, last, comments, rfl, -, filled, visible, first_break, all, -, -,
    others, last_break, rfl⟩ := takes
  refine ⟨name, char :: more, _, rfl, ⟨filled, visible⟩, ⟨first, comments, parameters, last, first_break,
    fun line among => (all line among).2, fun among => others _ among rfl, last_break, rfl⟩, rfl, rfl, rfl, rfl⟩

end Takes
end Marking
end Shakedown
