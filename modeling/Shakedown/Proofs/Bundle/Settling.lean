import Shakedown.Proofs.Bundle.Form
import Shakedown.Proofs.Text.CharClass
import Shakedown.Proofs.Text.First
import Shakedown.Bundle.Marking

/-!
# How the marking rules put in markers

A rule replaces what its pattern takes, either between two groups or in front of the match. In both ways
it settles the form that the pattern finds, and rules that run one behind the other settle all of their
forms.
-/

namespace Shakedown
namespace Marking

open Marker

/-! ## Characters -/

theorem slash_notMem_of_isWord {text : List Char} (word : ∀ char ∈ text, CharClass.isWord char) :
    '/' ∉ text := by
  intro member
  exact absurd (word _ member) (by decide)

theorem blank_notMem_of_isVisible {text : List Char}
    (visible : ∀ char ∈ text, !CharClass.isBlank char) : ' ' ∉ text := by
  intro member
  exact absurd (visible _ member) (by decide)

/-! ## Putting in markers -/

section Rules

variable {form : Form} {pattern : Pattern}

/-- A rule that marks between its groups, given what the pattern takes. -/
theorem isMarkedBy_markGroup3 (headed : form.headed = true)
    (reads : ∀ {before text rest noted}, pattern.Takes before text rest [] noted →
      form.Opens before.head? ∧ ∃ head body, text = head ++ body ∧ form.Fits head body ∧
        noted.lookup 1 = some head ∧ noted.lookup 3 = some body)
    (takes : ∀ {before head body} rest, form.Opens before.head? → form.Fits head body →
      ∃ noted, pattern.Takes before (head ++ body) rest [] noted) :
    form.IsMarkedBy pattern (fun found => some (markGroup3 found)) where
  found := by
    intro before after found matched
    obtain ⟨-, taken⟩ := Pattern.takes_of_matchAt? matched
    obtain ⟨-, head, body, text_eq, fits, head_eq, body_eq⟩ := reads taken
    refine ⟨head, body, text_eq, fits, .inr ⟨?_, ?_⟩⟩
    · intro marked
      have headless := Form.headed_eq_false fits marked
      exact Bool.false_ne_true (headless.symm.trans headed)
    · simp [markGroup3, Match.group, head_eq, body_eq]
  complete := by
    intro before head body rest opens fits
    obtain ⟨noted, taken⟩ := takes rest opens fits
    rw [← List.append_assoc]
    exact Pattern.matchAt?_ne_none_of_takes taken
  opens := by
    intro before char after matched
    obtain ⟨found, matched⟩ := Option.ne_none_iff_exists'.1 matched
    exact .inl (reads (Pattern.takes_of_matchAt? matched).2).1

theorem follows_iff {cursor : Cursor} {part : List Char} :
    cursor.follows part ↔ part <:+ cursor.before.reverse := by
  rw [Cursor.follows, List.isPrefixOf_iff_prefix, ← List.reverse_suffix, List.reverse_reverse]

/-- A rule that marks in front of its matches, given what the pattern takes. -/
theorem isMarkedBy_markMatches (headless : form.headed = false)
    (reads : ∀ {before text rest noted}, pattern.Takes before text rest [] noted ↔
      form.Fits [] text ∧ noted = [])
    (opens : ∀ char {body}, form.Fits [] body → form.Opens (some char) ∨ form.Fits [] (char :: body)) :
    form.IsMarkedBy pattern (fun found =>
      if found.start.follows chars then none else some (chars ++ found.text, found.stop)) where
  found := by
    intro before after found matched
    obtain ⟨-, taken⟩ := Pattern.takes_of_matchAt? matched
    refine ⟨[], found.text, rfl, (reads.1 taken).1, ?_⟩
    rw [List.append_nil, Pattern.start_of_matchAt? matched]
    by_cases stands : chars <:+ before.reverse
    · exact .inl ⟨stands, if_pos (follows_iff.2 stands)⟩
    · exact .inr ⟨stands, if_neg (fun follows => stands (follows_iff.1 follows))⟩
  complete := by
    intro before head body rest _ fits
    obtain rfl := form.head_eq_nil headless fits
    rw [List.nil_append]
    exact Pattern.matchAt?_ne_none_of_takes (reads.2 ⟨fits, rfl⟩)
  opens := by
    intro before char after matched
    obtain ⟨found, matched⟩ := Option.ne_none_iff_exists'.1 matched
    obtain ⟨rfl, taken⟩ := Pattern.takes_of_matchAt? matched
    obtain here | longer := opens char (reads.1 taken).1
    · exact .inl here
    · exact .inr (Pattern.matchAt?_ne_none_of_takes (reads.2 ⟨longer, rfl⟩))

end Rules

/-! ## Rules that settle their forms -/

/-- A rule that settles its form by putting in markers, and leaves a text alone in which it is settled. -/
structure Settling where
  /-- What the rule looks for. -/
  form : Form
  /-- What the rule makes of a text. -/
  apply : List Char → List Char
  /-- The rule puts in markers only. -/
  inserted : ∀ text, Inserted [] text (apply text)
  /-- The rule settles its form. -/
  settled : ∀ text, form.IsSettledIn (apply text)
  /-- The rule leaves alone what is settled. -/
  apply_eq : ∀ {text}, form.IsSettledIn text → apply text = text

namespace Settling

/-- The rule that applies an answer to the matches of a pattern. -/
def ofMarks {form : Form} {pattern : Pattern} {rule : Pattern.Rule}
    (marks : form.IsMarkedBy pattern rule) : Settling where
  form := form
  apply := pattern.substitute rule
  inserted := marks.inserted_substitute
  settled := marks.isSettledIn_substitute
  apply_eq := marks.substitute_eq

variable {text : List Char}

theorem isSettledIn_foldl {form : Form} (rules : List Settling) (settled : form.IsSettledIn text) :
    form.IsSettledIn (rules.foldl (fun text rule => rule.apply text) text) := by
  induction rules generalizing text with
  | nil => exact settled
  | cons rule rules ih => exact ih (settled.of_inserted (rule.inserted text))

/-- Rules that run one behind the other settle all of their forms. -/
theorem forall_isSettledIn_foldl (rules : List Settling) (text : List Char) :
    ∀ rule ∈ rules, rule.form.IsSettledIn (rules.foldl (fun text rule => rule.apply text) text) := by
  induction rules generalizing text with
  | nil => simp
  | cons rule rules ih =>
      intro other member
      obtain rfl | member := List.mem_cons.1 member
      · exact isSettledIn_foldl rules (other.settled text)
      · exact ih (rule.apply text) other member

end Settling

end Marking
end Shakedown
