import Shakedown.Proofs.Pattern.Search

/-!
# Substitutions that leave their results alone

A substitution swaps some parts of a text for new ones. It changes nothing more in its own result when it
has no answer inside of what it made, none inside of a match that it left as it was, and no answer
elsewhere that it did not have in the old text.
-/

namespace Shakedown
namespace Pattern

variable {pattern : Pattern} {rule : Rule} {text result : List Char}

/-- The rule has an answer at a place. -/
def Answers (pattern : Pattern) (rule : Rule) (before after : List Char) : Prop :=
  ∃ found, pattern.matchAt? ⟨before, after⟩ = Option.some found ∧ rule found ≠ none

/-- The second text is the first one with parts swapped for new ones. -/
inductive Rewritten (Swaps : (old new : List Char) → Prop) : List Char → List Char → Prop
  /-- Nothing is left. -/
  | nil : Rewritten Swaps [] []
  /-- A character stays. -/
  | keep {text result : List Char} (char : Char) :
      Rewritten Swaps text result → Rewritten Swaps (char :: text) (char :: result)
  /-- A part is swapped. -/
  | swap {text result old new : List Char} :
      Swaps old new → Rewritten Swaps text result → Rewritten Swaps (old ++ text) (new ++ result)

namespace Rewritten

variable {Swaps : (old new : List Char) → Prop}

theorem append {more moreResult : List Char} (front : Rewritten Swaps text result)
    (back : Rewritten Swaps more moreResult) :
    Rewritten Swaps (text ++ more) (result ++ moreResult) := by
  induction front with
  | nil => exact back
  | keep char _ ih => exact .keep char ih
  | swap swaps _ ih =>
      rw [List.append_assoc, List.append_assoc]
      exact .swap swaps ih

theorem refl (text : List Char) : Rewritten Swaps text text := by
  induction text with
  | nil => exact .nil
  | cons char text ih => exact .keep char ih

/-- A part swapped alone. -/
theorem single {old new : List Char} (swaps : Swaps old new) : Rewritten Swaps old new := by
  have swapped := swap swaps .nil
  rwa [List.append_nil, List.append_nil] at swapped

/-- A text in which no new part begins stood in the old text. -/
theorem exists_append {part more : List Char} (rewritten : Rewritten Swaps text (part ++ more))
    (outside : ∀ front back old new rest, part = front ++ back → back ≠ [] → Swaps old new →
      back ++ more ≠ new ++ rest) :
    ∃ rest, text = part ++ rest ∧ Rewritten Swaps rest more := by
  induction part generalizing text with
  | nil => exact ⟨text, rfl, rewritten⟩
  | cons char part ih =>
      generalize result_eq : char :: part ++ more = result at rewritten
      cases rewritten with
      | nil => contradiction
      | swap swaps _ =>
          exact absurd result_eq (outside [] _ _ _ _ rfl (List.cons_ne_nil char part) swaps)
      | @keep text result _ rewritten =>
          obtain ⟨rfl, rfl⟩ := List.cons_eq_cons.1 result_eq
          have outside_part : ∀ front back old new rest, part = front ++ back → back ≠ [] →
              Swaps old new → back ++ more ≠ new ++ rest := by
            intro front back old new rest part_eq
            exact outside (char :: front) back old new rest (by rw [part_eq, List.cons_append])
          obtain ⟨rest, rfl, rest_rewritten⟩ := ih rewritten outside_part
          exact ⟨rest, rfl, rest_rewritten⟩

/-- A text that holds no old part stays as it is. -/
theorem eq_of_outside (rewritten : Rewritten Swaps text result)
    (outside : ∀ old new, Swaps old new → ¬old <:+: text) : result = text := by
  induction rewritten with
  | nil => rfl
  | keep char _ ih =>
      rw [ih fun old new swaps stands => outside old new swaps (List.infix_cons stands)]
  | swap swaps _ _ => exact absurd (List.prefix_append _ _).isInfix (outside _ _ swaps)

/-- The end of a text stays when it holds no old part and none reaches into it. -/
theorem suffix_of_append {front back : List Char} (rewritten : Rewritten Swaps (front ++ back) result)
    (outside : ∀ old new, Swaps old new → ¬old <:+: back)
    (apart : ∀ old new, Swaps old new → ∀ last, last <:+ old → last ≠ [] → ¬last <+: back) :
    back <:+ result := by
  generalize text_eq : front ++ back = text at rewritten
  induction rewritten generalizing front with
  | nil =>
      obtain ⟨-, rfl⟩ := List.append_eq_nil_iff.1 text_eq
      exact List.nil_suffix
  | @keep text result char rewritten ih =>
      cases front with
      | nil =>
          obtain rfl : back = char :: text := text_eq
          have same : result = text := rewritten.eq_of_outside fun old new swaps stands =>
            outside old new swaps (List.infix_cons stands)
          exact ⟨[], congrArg (List.cons char) same.symm⟩
      | cons other front =>
          have behind := ih (List.cons_eq_cons.1 text_eq).2
          exact behind.trans (List.suffix_cons _ _)
  | @swap text result old new swaps rewritten ih =>
      have behind : ∀ first, first ++ back = text → back <:+ new ++ result := fun first same =>
        (ih same).trans (List.suffix_append _ _)
      obtain ⟨middle, old_eq, back_eq⟩ | ⟨middle, -, rfl⟩ := List.append_eq_append_iff.1 text_eq
      · cases middle with
        | nil => exact behind [] back_eq
        | cons char middle =>
            have ends : char :: middle <:+ old := ⟨front, old_eq.symm⟩
            have begins : char :: middle <+: back := ⟨text, back_eq.symm⟩
            exact absurd begins (apart old new swaps _ ends (List.cons_ne_nil _ _))
      · exact behind middle rfl

end Rewritten

/-- What makes a rule leave its results alone. -/
structure IsRecasting (pattern : Pattern) (rule : Rule) (Swaps : (old new : List Char) → Prop) :
    Prop where
  /-- Every match takes at least one character. -/
  advances : pattern.Advances
  /-- What the rule answers swaps a part of the text that is not empty. -/
  swaps : ∀ {before after found new rest}, pattern.matchAt? ⟨before, after⟩ = Option.some found →
    rule found = Option.some (new, rest) →
    ∃ old, old ≠ [] ∧ Swaps old new ∧ after = old ++ rest.after ∧ rest.before = old.reverse ++ before
  /-- Where the rule has an answer in the new text, it has one in the old text. -/
  answers_of_rewritten : ∀ {before after out result}, Rewritten Swaps before.reverse out →
    Rewritten Swaps after result → Answers pattern rule out.reverse result →
    Answers pattern rule before after
  /-- Inside of a match there are no answers. -/
  inside_match : ∀ {before after found first last}, pattern.matchAt? ⟨before, after⟩ = Option.some found →
    found.text = first ++ last → first ≠ [] → last ≠ [] →
    ∀ out rest, ¬Answers pattern rule out (last ++ rest)
  /-- Inside of a new part there are no answers. -/
  inside_new : ∀ {old first last}, Swaps old (first ++ last) → last ≠ [] →
    ∀ out rest, ¬Answers pattern rule (first.reverse ++ out) (last ++ rest)

namespace IsRecasting

variable {Swaps : (old new : List Char) → Prop} {cursor : Cursor}
  (recasting : IsRecasting pattern rule Swaps)
include recasting

theorem goesAhead : rule.GoesAhead pattern := by
  intro cursor found new rest matched answered
  obtain ⟨old, filled, -, after_eq, -⟩ := recasting.swaps matched answered
  rw [after_eq, List.length_append]
  exact Nat.lt_add_of_pos_left (List.length_pos_iff.2 filled)

theorem substitutes (text : List Char) :
    Substitutes pattern rule (Cursor.ofText text) (pattern.substitute rule text) :=
  substitutes_substitute recasting.advances recasting.goesAhead text

/-- A substitution swaps parts of the text. -/
theorem rewritten_of_substitutes (substitutes : Substitutes pattern rule cursor result) :
    Rewritten Swaps cursor.after result := by
  induction substitutes with
  | done => exact .nil
  | miss _ _ ih => exact .keep _ ih
  | kept matched _ _ ih =>
      rw [(after_eq_of_matchAt? matched).1]
      exact (Rewritten.refl _).append ih
  | replaced matched answered _ ih =>
      obtain ⟨old, -, swaps, after_eq, -⟩ := recasting.swaps matched answered
      rw [after_eq]
      exact .swap swaps ih

/-- The rule has no answers in what it makes of a text. -/
theorem not_answers_of_substitutes (substitutes : Substitutes pattern rule cursor result)
    {out front back : List Char} (rewritten : Rewritten Swaps cursor.before.reverse out)
    (result_eq : result = front ++ back) : ¬Answers pattern rule (front.reverse ++ out.reverse) back := by
  induction substitutes generalizing out front with
  | done unmatched =>
      obtain ⟨rfl, rfl⟩ := List.append_eq_nil_iff.1 result_eq.symm
      rintro ⟨found, matched, -⟩
      have shorter := recasting.advances _ _ matched
      exact Nat.not_lt_zero _ shorter
  | @miss before after char result unmatched substitutes ih =>
      cases front with
      | nil =>
          intro answers
          obtain rfl : char :: result = back := result_eq
          have kept := Rewritten.keep char (recasting.rewritten_of_substitutes substitutes)
          obtain ⟨found, matched, -⟩ := recasting.answers_of_rewritten rewritten kept answers
          exact absurd (unmatched.symm.trans matched) (by simp)
      | cons other front =>
          obtain ⟨rfl, behind⟩ := List.cons_eq_cons.1 result_eq
          have passed : Rewritten Swaps (char :: before).reverse (out ++ [char]) := by
            rw [List.reverse_cons]
            exact rewritten.append (.refl _)
          simpa using ih passed behind
  | @kept cursor found result matched silent substitutes ih =>
      obtain ⟨after_eq, before_eq⟩ := after_eq_of_matchAt? matched
      have passed : Rewritten Swaps found.stop.before.reverse (out ++ found.text) := by
        rw [before_eq, List.reverse_append, List.reverse_reverse]
        exact rewritten.append (.refl _)
      obtain ⟨last, text_eq, rfl⟩ | ⟨further, rfl, behind⟩ := List.append_eq_append_iff.1 result_eq.symm
      · by_cases done : last = []
        · subst done
          obtain rfl : found.text = front := by simpa using text_eq
          simpa using ih passed (List.nil_append _).symm
        · by_cases begins : front = []
          · subst begins
            obtain rfl : found.text = last := text_eq
            intro answers
            have kept := (Rewritten.refl found.text).append (recasting.rewritten_of_substitutes substitutes)
            rw [← after_eq] at kept
            obtain ⟨found', matched', answered⟩ :=
              recasting.answers_of_rewritten rewritten kept answers
            obtain rfl := Option.some.inj (matched.symm.trans matched')
            exact answered silent
          · exact recasting.inside_match matched text_eq begins done _ _
      · simpa using ih passed behind
  | @replaced cursor rest found new result matched answered substitutes ih =>
      obtain ⟨old, -, swaps, after_eq, before_eq⟩ := recasting.swaps matched answered
      have passed : Rewritten Swaps rest.before.reverse (out ++ new) := by
        rw [before_eq, List.reverse_append, List.reverse_reverse]
        exact rewritten.append (.single swaps)
      obtain ⟨last, rfl, rfl⟩ | ⟨further, rfl, behind⟩ := List.append_eq_append_iff.1 result_eq.symm
      · by_cases done : last = []
        · subst done
          simpa using ih passed (List.nil_append _).symm
        · exact recasting.inside_new swaps done _ _
      · simpa using ih passed behind

omit recasting in
/-- Where a rule has no answers, a text stays as it is. -/
theorem eq_of_not_answers (substitutes : Substitutes pattern rule cursor result)
    (silent : ∀ front back, cursor.after = front ++ back →
      ¬Answers pattern rule (front.reverse ++ cursor.before) back) : result = cursor.after := by
  induction substitutes with
  | done => rfl
  | @miss before after char result _ _ ih =>
      rw [ih fun front back after_eq => by
        simpa using silent (char :: front) back (congrArg (char :: ·) after_eq)]
  | @kept cursor found result matched _ _ ih =>
      obtain ⟨after_eq, before_eq⟩ := after_eq_of_matchAt? matched
      rw [after_eq, ih fun front back stop_eq => by
        simpa [before_eq] using silent (found.text ++ front) back (by simp [after_eq, stop_eq])]
  | replaced matched answered _ _ =>
      exact absurd ⟨_, matched, by simp [answered]⟩ (silent [] _ rfl)

/-- A second run changes nothing. -/
theorem substitute_substitute (text : List Char) :
    pattern.substitute rule (pattern.substitute rule text) = pattern.substitute rule text := by
  apply eq_of_not_answers (recasting.substitutes _)
  intro front back result_eq
  exact recasting.not_answers_of_substitutes (recasting.substitutes text) .nil result_eq

end IsRecasting
end Pattern
end Shakedown
