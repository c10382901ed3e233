import Shakedown.Proofs.Bundle.Enum.Lines
import Shakedown.Proofs.Bundle.Settling
import Shakedown.Proofs.Pattern.Recasting

/-!
# Wrapping enums that are filled line by line

The rule puts a line in front of an enum and a line behind it. No other head begins inside of the lines of
an enum or of what is put around them, so an enum that is wrapped is not wrapped again, and wrapping one
enum neither makes nor hides another.
-/

namespace Shakedown
namespace Enum

/-! ## Where no heads begin -/

section Avoiding

variable {name text follows : List Char}

/-- A head, with the sign of the assignment taken apart. -/
theorem IsPlainHead.exists_value (is_head : IsPlainHead name text) : ∃ rest, 'v' ∉ '\x7b' :: rest ∧
    text = "var ".toList ++ (name ++ ' ' :: '=' :: ' ' :: '\x7b' :: rest) := by
  obtain ⟨-, -, last, line_break, rfl⟩ := is_head
  refine ⟨"\x7d;".toList ++ last, ?_, rfl⟩
  rw [List.mem_cons, List.mem_append, not_or, not_or]
  exact ⟨by decide, by decide, notMem_of_isLineBreak line_break⟩

theorem IsPlainHead.declares (is_head : IsPlainHead name text) (more : List Char) :
    Declares toEmpty (text ++ more) := by
  obtain ⟨rest, -, rfl⟩ := is_head.exists_value
  exact ⟨_, List.append_assoc _ _ _, name, rest ++ more, is_head.2.1, by simp⟩

/-- A head is no declaration of something marked. -/
theorem IsPlainHead.avoids_toMarked (is_head : IsPlainHead name text) : Avoids toMarked text := by
  obtain ⟨rest, free, rfl⟩ := is_head.exists_value
  exact avoids_declaration is_head.2.1 (by decide) (by decide) (avoids_of_notMem free)

/-- Inside of a head no head begins. -/
theorem IsPlainHead.exists_cons (is_head : IsPlainHead name text) :
    ∃ rest, text = 'v' :: rest ∧ Avoids toEmpty rest := by
  obtain ⟨rest, free, rfl⟩ := is_head.exists_value
  exact ⟨_, rfl, avoids_declaration_tail is_head.2.1 (by decide) (avoids_of_notMem free)⟩

theorem IsMemberLine.avoids (visible : IsVisible name) (is_line : IsMemberLine name text) :
    Avoids (toValue ++ follows) text := by
  obtain ⟨member, number, last, ⟨-, member_visible⟩, ⟨numbered, digits⟩, line_break, rfl⟩ := is_line
  obtain ⟨digit, number, rfl⟩ := List.exists_cons_of_ne_nil numbered
  have is_digit := digits digit List.mem_cons_self
  have free : 'v' ∉ digit :: (number ++ ';' :: last) := by
    have number_free : 'v' ∉ digit :: number := fun among => absurd (digits _ among) (by decide)
    rw [← List.cons_append, List.mem_append, not_or]
    exact ⟨number_free, List.not_mem_cons_of_ne_of_not_mem (by decide) (notMem_of_isLineBreak line_break)⟩
  have no_sign : digit ≠ '=' := by
    rintro rfl
    exact absurd is_digit (by decide)
  have split : name ++ ('.' :: (member ++ (" = ".toList ++ (digit :: number ++ (';' :: last))))) =
      (name ++ '.' :: member) ++ ' ' :: '=' :: ' ' :: digit :: (number ++ ';' :: last) := by simp
  rw [split]
  exact avoids_assigned (visible.append (member_visible.cons (by decide))) no_sign (avoids_of_notMem free)

theorem IsLookup.avoids {member spelling : List Char} (visible : IsVisible name)
    (lookup : IsLookup name member spelling text) : Avoids follows text := by
  obtain ⟨⟨-, member_visible⟩, ⟨-, spelling_visible⟩, rfl⟩ := lookup
  have split : name ++ ('[' :: (name ++ ('.' :: (member ++ ("] = \"".toList ++ (spelling ++ "\";".toList)))))) =
      (name ++ '[' :: (name ++ '.' :: member)) ++ [']'] ++
        (" = ".toList ++ (('"' :: (spelling ++ ['"'])) ++ [';'])) := by simp
  have spelled : IsVisible ('"' :: (spelling ++ ['"'])) :=
    (spelling_visible.append (isVisible_of_all (by decide))).cons (by decide)
  have named : IsVisible (name ++ '[' :: (name ++ '.' :: member)) :=
    visible.append ((visible.append (member_visible.cons (by decide))).cons (by decide))
  rw [split]
  apply (avoids_run_concat named (by decide) (by decide)).append
  exact (avoids_of_notMem (by decide)).append (avoids_run_concat spelled (by decide) (by decide))

theorem IsLookupLine.avoids (visible : IsVisible name) (is_line : IsLookupLine name text) :
    Avoids follows text := by
  obtain ⟨member, spelling, statement, back, feeds, lookup, back_eq, fed, rfl⟩ := is_line
  have free : 'v' ∉ back ++ feeds := by
    rw [List.mem_append, not_or]
    refine ⟨?_, fun among => absurd (fed _ among) (by decide)⟩
    obtain rfl | rfl := back_eq <;> decide
  exact (lookup.avoids visible).append (avoids_of_notMem free)

/-- Inside of the lines of an enum no value is assigned to a name that is declared there. -/
theorem IsPlainBody.avoids (visible : IsVisible name) (is_body : IsPlainBody name text) :
    Avoids (toValue ++ follows) text := by
  obtain ⟨members, first, lookups, ⟨-, member_lines⟩, ⟨member, statement, last, lookup, line_break, rfl⟩,
    ⟨-, lookup_lines⟩, rfl⟩ := is_body
  apply (avoids_flatten fun line among => (member_lines line among).avoids visible).append
  apply Avoids.append
  · exact (lookup.avoids visible).append (avoids_of_notMem (notMem_of_isLineBreak line_break))
  · exact avoids_flatten fun line among => (lookup_lines line among).avoids visible

/-- The opening line, with the sign of the assignment taken apart. -/
theorem plainOpening_eq (name : List Char) : plainOpening name =
    "var ".toList ++ (name ++ ' ' :: '=' :: ' ' :: '/' :: "*@__PURE__*/(function() \x7b\n".toList) := by
  have value : " = ".toList = [' ', '=', ' '] := by decide
  have marked : Marker.pure.toList ++ "(function() \x7b\n".toList =
      '/' :: "*@__PURE__*/(function() \x7b\n".toList := by decide
  unfold plainOpening
  rw [value]
  simp only [List.append_assoc, marked, List.cons_append, List.nil_append]

theorem declares_plainOpening (visible : IsVisible name) (rest : List Char) :
    Declares toMarked (plainOpening name ++ rest) := by
  rw [plainOpening_eq]
  exact ⟨_, List.append_assoc _ _ _, name, _, visible, by simp; rfl⟩

/-- Inside of the opening line no head begins. -/
theorem plainOpening_avoids (visible : IsVisible name) : Avoids toEmpty (plainOpening name) := by
  rw [plainOpening_eq]
  exact avoids_declaration visible (by decide) (by decide) (avoids_of_notMem (by decide))

/-- Inside of the closing line nothing is declared. -/
theorem plainClosing_avoids (visible : IsVisible name) : Avoids follows (plainClosing name) := by
  have parted : ";\x7d)();\n".toList = ";\x7d)()".toList ++ ([';'] ++ ['\n']) := by decide
  have split : plainClosing name = "; return ".toList ++ (name ++ ";\x7d)()".toList ++ [';'] ++ ['\n']) := by
    unfold plainClosing
    rw [parted]
    simp only [List.append_assoc]
  have end_visible : IsVisible ";\x7d)()".toList := isVisible_of_all (by decide)
  have ending : Avoids follows (name ++ ";\x7d)()".toList ++ [';']) :=
    avoids_run_concat (visible.append end_visible) (by decide) (by decide)
  rw [split]
  exact (avoids_of_notMem (by decide)).append (ending.append (avoids_of_notMem (by decide)))

end Avoiding

/-! ## What the rule does -/

variable {name name' head body before after out result rest old new : List Char}

/-- What the rule finds is an enum that is not wrapped. -/
theorem exists_of_wrapPlainAt {found : Match} {stop : Cursor}
    (matched : plainHead.matchAt? ⟨before, after⟩ = some found)
    (answered : wrapPlainAt found = some (new, stop)) :
    ∃ name head body, IsPlainHead name head ∧ IsPlainBody name body ∧
      ¬plainOpening name <:+ before.reverse ∧ after = head ++ body ++ stop.after ∧
      stop.before = (head ++ body).reverse ++ before ∧
      new = plainOpening name ++ (head ++ body) ++ plainClosing name ∧
      (lookupLine name).matchAt? stop = none := by
  obtain ⟨after_eq, taken⟩ := Pattern.takes_of_matchAt? matched
  obtain ⟨name, is_head, noted_eq⟩ := takes_plainHead.1 taken
  have name_eq : found.group 1 = name := by simp [Match.group, noted_eq]
  rw [wrapPlainAt, name_eq, Pattern.start_of_matchAt? matched] at answered
  split at answered
  · contradiction
  rename_i unwrapped
  obtain ⟨stop', ended, answer_eq⟩ := Option.map_eq_some_iff.1 answered
  obtain ⟨new_eq, rfl⟩ := Prod.mk.inj answer_eq
  obtain ⟨body, is_body, behind_eq, stop_eq, last⟩ := of_plainEnd? ended
  have after_eq : after = found.text ++ body ++ stop'.after := by
    rw [after_eq, behind_eq, List.append_assoc]
  have between_eq : (⟨before, after⟩ : Cursor).between stop' = found.text ++ body := by
    rw [Cursor.between, after_eq, List.length_append, Nat.add_sub_cancel]
    exact List.take_left
  refine ⟨name, found.text, body, is_head, is_body, fun wrapped => unwrapped (Marking.follows_iff.2 wrapped),
    after_eq, ?_, ?_, last⟩
  · rw [stop_eq, (Pattern.after_eq_of_matchAt? matched).2]
    simp
  · rw [← new_eq, between_eq]

theorem plain_answers_iff : plainHead.Answers wrapPlainAt before after ↔
    ∃ name head body rest, IsPlainHead name head ∧ IsPlainBody name body ∧
      ¬plainOpening name <:+ before.reverse ∧ after = head ++ body ++ rest := by
  constructor
  · rintro ⟨found, matched, answered⟩
    obtain ⟨⟨new, stop⟩, answered⟩ := Option.ne_none_iff_exists'.1 answered
    obtain ⟨name, head, body, is_head, is_body, unwrapped, after_eq, -⟩ :=
      exists_of_wrapPlainAt matched answered
    exact ⟨name, head, body, stop.after, is_head, is_body, unwrapped, after_eq⟩
  · rintro ⟨name, head, body, rest, is_head, is_body, unwrapped, rfl⟩
    rw [List.append_assoc]
    have taken : plainHead.Takes before head (body ++ rest) [] [(1, name)] :=
      takes_plainHead.2 ⟨name, is_head, rfl⟩
    obtain ⟨found, matched, after_eq, found_taken⟩ := Pattern.exists_match_of_takes taken
    obtain ⟨name', is_head', noted_eq⟩ := takes_plainHead.1 found_taken
    obtain ⟨rfl, -, rest_eq⟩ := is_head.append_inj is_head' after_eq
    have stop_eq : found.stop = ⟨found.stop.before, body ++ rest⟩ := Cursor.eq_of_parts rfl rest_eq.symm
    have name_eq : found.group 1 = name := by simp [Match.group, noted_eq]
    refine ⟨found, matched, ?_⟩
    have unfollowed : ¬(⟨before, head ++ (body ++ rest)⟩ : Cursor).follows (plainOpening name) :=
      fun follows => unwrapped (Marking.follows_iff.1 follows)
    rw [wrapPlainAt, name_eq, Pattern.start_of_matchAt? matched, if_neg unfollowed, stop_eq]
    exact fun unanswered =>
      plainEnd?_ne_none is_head.2.1 is_body rest (Option.map_eq_none_iff.1 unanswered)

/-- Where the rule answers, an object without members is declared. -/
theorem declares_of_plain_answers (answers : plainHead.Answers wrapPlainAt before after) :
    Declares toEmpty after := by
  obtain ⟨name, head, body, rest, is_head, -, -, rfl⟩ := plain_answers_iff.1 answers
  rw [List.append_assoc]
  exact is_head.declares _

/-- An enum, and the enum wrapped. -/
def PlainSwaps (old new : List Char) : Prop :=
  ∃ name head body, IsPlainHead name head ∧ IsPlainBody name body ∧ old = head ++ body ∧
    new = plainOpening name ++ (head ++ body) ++ plainClosing name

theorem PlainSwaps.declares_old (swaps : PlainSwaps old new) (rest : List Char) :
    Declares toEmpty (old ++ rest) := by
  obtain ⟨name, head, body, is_head, -, rfl, -⟩ := swaps
  rw [List.append_assoc]
  exact is_head.declares _

theorem PlainSwaps.declares_new (swaps : PlainSwaps old new) (rest : List Char) :
    Declares toMarked (new ++ rest) := by
  obtain ⟨name, head, body, is_head, -, -, rfl⟩ := swaps
  rw [List.append_assoc, List.append_assoc]
  exact declares_plainOpening is_head.2.1 _

theorem PlainSwaps.avoids_old (swaps : PlainSwaps old new) : Avoids toMarked old := by
  obtain ⟨name, head, body, is_head, is_body, rfl, -⟩ := swaps
  exact is_head.avoids_toMarked.append (is_body.avoids is_head.2.1)

/-- An opening line stays where it stands when enums before it are wrapped. -/
theorem plainOpening_suffix (visible : IsVisible name) (stands : plainOpening name <:+ before)
    (rewritten : Pattern.Rewritten PlainSwaps before out) : plainOpening name <:+ out := by
  obtain ⟨front, rfl⟩ := stands
  apply rewritten.suffix_of_append
  · rintro old new swaps ⟨first, last, opening_eq⟩
    have avoids : Avoids toEmpty (first ++ (old ++ last)) := by
      rw [← List.append_assoc, opening_eq]
      exact plainOpening_avoids visible
    have filled : old ++ last ≠ [] := fun empty => by
      have declares := swaps.declares_old last
      rw [empty] at declares
      exact absurd declares.head? (by simp)
    have declares := swaps.declares_old (last ++ [])
    rw [← List.append_assoc] at declares
    exact avoids _ _ [] rfl filled declares
  · rintro old new swaps last ⟨first, rfl⟩ filled ⟨more, opening_eq⟩
    apply swaps.avoids_old first last more rfl filled
    rw [opening_eq, ← List.append_nil (plainOpening name)]
    exact declares_plainOpening visible []

/-- A wrapped enum is left alone, and nothing inside of it or around it is wrapped because of it. -/
theorem isRecasting_plain : Pattern.IsRecasting plainHead wrapPlainAt PlainSwaps where
  advances := by
    intro cursor found matched
    obtain ⟨after_eq, taken⟩ := Pattern.takes_of_matchAt? matched
    obtain ⟨name, is_head, -⟩ := takes_plainHead.1 taken
    obtain ⟨tail, text_eq, -⟩ := is_head.exists_cons
    rw [after_eq, text_eq, List.length_append, List.length_cons]
    omega
  swaps := by
    intro before after found new stop matched answered
    obtain ⟨name, head, body, is_head, is_body, -, after_eq, stop_eq, new_eq, -⟩ :=
      exists_of_wrapPlainAt matched answered
    obtain ⟨tail, head_eq, -⟩ := is_head.exists_cons
    exact ⟨head ++ body, by simp [head_eq], ⟨name, head, body, is_head, is_body, rfl, new_eq⟩, after_eq,
      stop_eq⟩
  answers_of_rewritten := by
    intro before after out result before_rewritten after_rewritten answers
    obtain ⟨name, head, body, more, is_head, is_body, unwrapped, rfl⟩ := plain_answers_iff.1 answers
    have avoids : Avoids toMarked (head ++ body) :=
      is_head.avoids_toMarked.append (is_body.avoids is_head.2.1)
    obtain ⟨rest, rfl, -⟩ := after_rewritten.exists_append fun front back old new rest part_eq filled swaps
      same => avoids front back more part_eq filled (same ▸ swaps.declares_new rest)
    refine plain_answers_iff.2 ⟨name, head, body, rest, is_head, is_body, fun stands => ?_, rfl⟩
    apply unwrapped
    rw [List.reverse_reverse]
    exact plainOpening_suffix is_head.2.1 stands before_rewritten
  inside_match := by
    intro before after found first last matched text_eq begun filled out rest answers
    obtain ⟨-, taken⟩ := Pattern.takes_of_matchAt? matched
    obtain ⟨name, is_head, -⟩ := takes_plainHead.1 taken
    obtain ⟨tail, head_eq, avoids⟩ := is_head.exists_cons
    obtain ⟨char, first, rfl⟩ := List.exists_cons_of_ne_nil begun
    obtain ⟨-, tail_eq⟩ := List.cons_eq_cons.1 (head_eq.symm.trans text_eq)
    exact avoids first last rest tail_eq filled (declares_of_plain_answers answers)
  inside_new := by
    intro old first last swaps filled out rest answers
    obtain ⟨name', head', body', more, is_head', -, unwrapped, after_eq⟩ := plain_answers_iff.1 answers
    have declares := declares_of_plain_answers answers
    obtain ⟨name, head, body, is_head, is_body, -, new_eq⟩ := swaps
    obtain ⟨tail, head_eq, tail_avoids⟩ := is_head.exists_cons
    have inner_avoids : Avoids toEmpty (tail ++ body ++ plainClosing name) :=
      (tail_avoids.append (is_body.avoids is_head.2.1)).append (plainClosing_avoids is_head.2.1)
    -- The enum itself stands behind its opening line.
    have not_at_head : ∀ more', first = plainOpening name → last = head ++ more' → False := by
      rintro more' rfl rfl
      rw [List.append_assoc, List.append_assoc] at after_eq
      obtain ⟨rfl, -⟩ := is_head.append_inj is_head' after_eq
      apply unwrapped
      rw [List.reverse_append, List.reverse_reverse]
      exact List.suffix_append _ _
    rw [List.append_assoc, List.append_assoc head] at new_eq
    obtain ⟨middle, opening_eq, rfl⟩ | ⟨middle, first_eq, behind⟩ := List.append_eq_append_iff.1 new_eq
    · by_cases done : middle = []
      · subst done
        exact not_at_head _ (by simpa using opening_eq.symm) rfl
      · rw [List.append_assoc] at declares
        exact plainOpening_avoids is_head.2.1 first middle _ opening_eq done declares
    · cases middle with
      | nil => exact not_at_head _ (by simpa using first_eq) behind.symm
      | cons char middle =>
          rw [head_eq] at behind
          obtain ⟨-, behind⟩ := List.cons_eq_cons.1 behind
          rw [List.append_assoc] at inner_avoids
          exact inner_avoids middle last rest behind filled declares

end Enum
end Shakedown
