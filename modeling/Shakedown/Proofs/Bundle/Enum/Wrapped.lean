import Shakedown.Proofs.Bundle.Enum.Plain
import Shakedown.Proofs.Edit.Insertions

/-!
# What is put in around enums

Wrapping the enums that are filled line by line puts in text only: in front of each enum that is not
wrapped the opening line, and behind its last line the closing one.
-/

namespace Shakedown
namespace Enum

/-- An enum that is wrapped, with the bytes that it takes up. -/
structure Wrapped where
  /-- The name of the enum. -/
  name : List Char
  /-- Where the opening line is put. -/
  start : Nat
  /-- Where the closing line is put. -/
  stop : Nat

/-- What is put in around an enum. -/
def Wrapped.insertions (enum : Wrapped) : List (Nat × String) :=
  [ (enum.start, String.ofList (plainOpening enum.name))
  , (enum.stop, String.ofList (plainClosing enum.name)) ]

/-- A text with enums wrapped, in front of which `before` stands. -/
structure IsWrapped (before text result : List Char) (enums : List Wrapped) : Prop where
  /-- The lines around the enums are put in, and nothing else changes. -/
  result_eq : result = Meaning.weave (enums.flatMap Wrapped.insertions) (Text.width before) text
  /-- The enums stand behind each other. -/
  ordered : enums.Pairwise fun first second => first.stop ≤ second.start
  /-- They stand in the text. -/
  behind : ∀ enum ∈ enums, Text.width before ≤ enum.start
  /-- Each of them is a head and its lines up to the last one, and no opening line stands in front of it. -/
  encloses : ∀ enum ∈ enums, ∃ front head body after,
    IsPlainHead enum.name head ∧ IsPlainBody enum.name body ∧
    before ++ text = front ++ (head ++ body ++ after) ∧
    enum.start = Text.width front ∧ enum.stop = Text.width (front ++ (head ++ body)) ∧
    (∀ line more, IsLookupLine enum.name line → after ≠ line ++ more) ∧
    ¬plainOpening enum.name <:+ front
  /-- Every enum that no opening line stands in front of is wrapped. -/
  complete : ∀ front name head body after, IsPlainHead name head → IsPlainBody name body →
    text = front ++ (head ++ body ++ after) → ¬plainOpening name <:+ before ++ front →
    ∃ enum ∈ enums, enum.name = name ∧ enum.start = Text.width (before ++ front)

variable {before text result : List Char} {enums : List Wrapped}

theorem Wrapped.le_of_mem_insertions {offset : Nat}
    (behind : ∀ enum ∈ enums, offset ≤ enum.start ∧ enum.start ≤ enum.stop) :
    ∀ item ∈ enums.flatMap Wrapped.insertions, offset ≤ item.1 := by
  intro item among
  obtain ⟨enum, listed, among⟩ := List.mem_flatMap.1 among
  obtain ⟨start_le, stop_le⟩ := behind enum listed
  simp only [Wrapped.insertions, List.mem_cons, List.not_mem_nil, or_false] at among
  obtain rfl | rfl := among
  · exact start_le
  · exact Nat.le_trans start_le stop_le

/-- A head that does not stand in front of an enum is the head of the enum or stands behind the enum. -/
theorem eq_or_exists_behind {name name' head head' body front rest : List Char}
    (is_head : IsPlainHead name head) (is_body : IsPlainBody name body) (is_head' : IsPlainHead name' head')
    (same : head ++ body ++ text = front ++ (head' ++ rest)) :
    (front = [] ∧ name = name') ∨
      ∃ middle, front = head ++ body ++ middle ∧ text = middle ++ (head' ++ rest) := by
  obtain ⟨middle, front_eq, behind⟩ | ⟨back, enum_eq, behind⟩ := List.append_eq_append_iff.1 same
  · exact .inr ⟨middle, front_eq, behind⟩
  by_cases done : back = []
  · subst done
    exact .inr ⟨[], by simpa using enum_eq.symm, behind.symm⟩
  cases front with
  | nil =>
      rw [List.nil_append, List.append_assoc] at same
      exact .inl ⟨rfl, (is_head.append_inj is_head' same).1⟩
  | cons char front =>
      -- the head would stand in the rest of the enum, where nothing is declared
      obtain ⟨tail, rfl, tail_avoids⟩ := is_head.exists_cons
      obtain ⟨-, inner_eq⟩ := List.cons_eq_cons.1 enum_eq
      have avoids := tail_avoids.append (is_body.avoids is_head.2.1)
      refine absurd ?_ (avoids front back text inner_eq done)
      rw [← behind]
      exact is_head'.declares _

namespace IsWrapped

theorem start_le (wrapped : IsWrapped before text result enums) :
    ∀ enum ∈ enums, Text.width before ≤ enum.start ∧ enum.start ≤ enum.stop := by
  intro enum listed
  refine ⟨wrapped.behind enum listed, ?_⟩
  obtain ⟨front, head, body, after, -, -, -, start_eq, stop_eq, -⟩ := wrapped.encloses enum listed
  rw [start_eq, stop_eq, Text.width_append]
  exact Nat.le_add_right _ _

/-- Text in which the rule has no answers stays. -/
theorem append {part : List Char} (wrapped : IsWrapped (before ++ part) text result enums)
    (silent : ∀ first last, part = first ++ last → last ≠ [] →
      ¬plainHead.Answers wrapPlainAt (before ++ first).reverse (last ++ text)) :
    IsWrapped before (part ++ text) (part ++ result) enums where
  result_eq := by
    have behind := Wrapped.le_of_mem_insertions wrapped.start_le
    rw [Text.width_append] at behind
    rw [Meaning.weave_append behind, ← Text.width_append, ← wrapped.result_eq]
  ordered := wrapped.ordered
  behind := by
    intro enum listed
    have := wrapped.behind enum listed
    rw [Text.width_append] at this
    omega
  encloses := by simpa using wrapped.encloses
  complete := by
    intro front name head body after is_head is_body text_eq unwrapped
    obtain ⟨middle, rfl, rfl⟩ | ⟨last, part_eq, rest_eq⟩ := List.append_eq_append_iff.1 text_eq
    · rw [← List.append_assoc] at unwrapped ⊢
      exact wrapped.complete middle name head body after is_head is_body rfl unwrapped
    · by_cases done : last = []
      · subst done
        obtain rfl : part = front := by simpa using part_eq
        have found := wrapped.complete [] name head body after is_head is_body rest_eq.symm
          (by simpa using unwrapped)
        simpa using found
      · refine absurd (plain_answers_iff.2 ⟨name, head, body, after, is_head, is_body, ?_, rest_eq.symm⟩)
          (silent front last part_eq done)
        rwa [List.reverse_reverse]

/-- An enum is wrapped. -/
theorem wrap {name head body : List Char} (is_head : IsPlainHead name head) (is_body : IsPlainBody name body)
    (unwrapped : ¬plainOpening name <:+ before)
    (last : ∀ line more, IsLookupLine name line → text ≠ line ++ more)
    (wrapped : IsWrapped (before ++ (head ++ body)) text result enums) :
    IsWrapped before (head ++ body ++ text) (plainOpening name ++ (head ++ body) ++ plainClosing name ++ result)
      (⟨name, Text.width before, Text.width (before ++ (head ++ body))⟩ :: enums) where
  result_eq := by
    have stop_eq : Text.width before + Text.width (head ++ body) = Text.width (before ++ (head ++ body)) :=
      (Text.width_append _ _).symm
    have others_behind := Wrapped.le_of_mem_insertions wrapped.start_le
    have all_behind : ∀ item ∈ (Text.width (before ++ (head ++ body)), String.ofList (plainClosing name)) ::
        enums.flatMap Wrapped.insertions, Text.width before + Text.width (head ++ body) ≤ item.1 := by
      rw [stop_eq]
      exact List.forall_mem_cons.2 ⟨Nat.le_refl _, others_behind⟩
    rw [List.flatMap_cons, Wrapped.insertions, List.cons_append, List.cons_append, List.nil_append,
      Meaning.weave_cons, Meaning.weave_append all_behind, stop_eq, Meaning.weave_cons, ← wrapped.result_eq]
    simp
  ordered := List.pairwise_cons.2 ⟨wrapped.behind, wrapped.ordered⟩
  behind := by
    refine List.forall_mem_cons.2 ⟨Nat.le_refl _, fun enum listed => ?_⟩
    have := wrapped.behind enum listed
    rw [Text.width_append] at this
    omega
  encloses := by
    refine List.forall_mem_cons.2
      ⟨⟨before, head, body, text, is_head, is_body, rfl, rfl, rfl, last, unwrapped⟩, ?_⟩
    simpa using wrapped.encloses
  complete := by
    intro front name' head' body' after is_head' is_body' text_eq unwrapped'
    rw [List.append_assoc head'] at text_eq
    obtain ⟨rfl, rfl⟩ | ⟨middle, rfl, behind⟩ := eq_or_exists_behind is_head is_body is_head' text_eq
    · exact ⟨_, List.mem_cons_self, rfl, by simp⟩
    · rw [← List.append_assoc before (head ++ body) middle] at unwrapped' ⊢
      rw [← List.append_assoc head'] at behind
      obtain ⟨enum, listed, same⟩ :=
        wrapped.complete middle name' head' body' after is_head' is_body' behind unwrapped'
      exact ⟨enum, List.mem_cons_of_mem _ listed, same⟩

end IsWrapped

theorem exists_wrapped {cursor : Cursor} (substitutes : Pattern.Substitutes plainHead wrapPlainAt cursor result) :
    ∃ enums, IsWrapped cursor.before.reverse cursor.after result enums := by
  induction substitutes with
  | @done before unmatched =>
      refine ⟨[], ⟨by simp, .nil, by simp, by simp, ?_⟩⟩
      intro front name head body after is_head is_body text_eq
      obtain ⟨tail, rfl, -⟩ := is_head.exists_cons
      simp at text_eq
  | @miss before after char result unmatched _ ih =>
      obtain ⟨enums, wrapped⟩ := ih
      rw [List.reverse_cons] at wrapped
      have silent : ∀ first last, [char] = first ++ last → last ≠ [] →
          ¬plainHead.Answers wrapPlainAt (before.reverse ++ first).reverse (last ++ after) := by
        rintro first last part_eq filled ⟨found, matched, -⟩
        obtain ⟨rfl, rfl⟩ | ⟨-, rfl⟩ := List.append_eq_singleton_iff.1 part_eq.symm
        · rw [List.append_nil, List.reverse_reverse] at matched
          exact absurd (unmatched.symm.trans matched) (by simp)
        · exact filled rfl
      exact ⟨enums, wrapped.append silent⟩
  | @kept cursor found result matched silent _ ih =>
      obtain ⟨enums, wrapped⟩ := ih
      obtain ⟨after_eq, before_eq⟩ := Pattern.after_eq_of_matchAt? matched
      rw [before_eq, List.reverse_append, List.reverse_reverse] at wrapped
      rw [after_eq]
      refine ⟨enums, wrapped.append ?_⟩
      intro first last part_eq filled answers
      by_cases begins : first = []
      · subst begins
        obtain rfl : found.text = last := part_eq
        rw [List.append_nil, List.reverse_reverse, ← after_eq] at answers
        obtain ⟨found', matched', answered⟩ := answers
        obtain rfl := Option.some.inj (matched.symm.trans matched')
        exact answered silent
      · exact isRecasting_plain.inside_match matched part_eq begins filled _ _ answers
  | @replaced cursor rest found new result matched answered _ ih =>
      obtain ⟨enums, wrapped⟩ := ih
      obtain ⟨name, head, body, is_head, is_body, unwrapped, after_eq, stop_eq, rfl, last⟩ :=
        exists_of_wrapPlainAt matched answered
      rw [stop_eq, List.reverse_append, List.reverse_reverse] at wrapped
      rw [after_eq]
      refine ⟨_, wrapped.wrap is_head is_body unwrapped ?_⟩
      intro line more is_line same
      obtain ⟨noted, taken⟩ : ∃ noted, (lookupLine name).Takes rest.before line more [] noted :=
        takes_lookupLine.2 is_line
      apply Pattern.matchAt?_ne_none_of_takes taken
      rw [← same]
      exact last

/-- The rule puts in the lines around the enums that are not wrapped, and changes nothing else. -/
theorem isWrapped_wrapPlain (text : List Char) : ∃ enums, IsWrapped [] text (wrapPlain text) enums :=
  exists_wrapped (isRecasting_plain.substitutes text)

end Enum
end Shakedown
