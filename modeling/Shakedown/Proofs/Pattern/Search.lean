import Shakedown.Proofs.Pattern.Ways
import Shakedown.Proofs.Text.Boundary

/-!
# What a search finds

When every match of a pattern takes at least one character, the rounds of a search never run out:
the matches found and the substituted text follow the text to its end.
-/

namespace Shakedown
namespace Pattern

/-- Every match of the pattern takes at least one character. -/
def Advances (pattern : Pattern) : Prop :=
  ∀ cursor found, pattern.matchAt? cursor = Option.some found →
    found.stop.after.length < cursor.after.length

/-! ## Matches -/

/-- The matches from a place on: at each place a match is taken if there is one, and the search goes
on behind it. -/
inductive Scans (pattern : Pattern) : Cursor → List Match → Prop
  /-- Nothing is left. -/
  | done {before : List Char} : pattern.matchAt? ⟨before, []⟩ = none → Scans pattern ⟨before, []⟩ []
  /-- A match is taken. -/
  | hit {cursor : Cursor} {found : Match} {others : List Match} :
      pattern.matchAt? cursor = Option.some found → Scans pattern found.stop others →
      Scans pattern cursor (found :: others)
  /-- A character is passed over. -/
  | miss {before after : List Char} {char : Char} {others : List Match} :
      pattern.matchAt? ⟨before, char :: after⟩ = none →
      Scans pattern ⟨char :: before, after⟩ others →
      Scans pattern ⟨before, char :: after⟩ others

variable {pattern : Pattern} {cursor : Cursor} {found : Match}

theorem start_of_matchAt? (matched : pattern.matchAt? cursor = Option.some found) :
    found.start = cursor := by
  rw [matchAt?_eq] at matched
  obtain ⟨way, -, rfl⟩ := Option.map_eq_some_iff.1 matched
  rfl

/-- A match ends ahead of its start. -/
theorem exists_skip_of_matchAt? (matched : pattern.matchAt? cursor = Option.some found) :
    ∃ count, found.stop = cursor.skip count := by
  rw [matchAt?_eq] at matched
  obtain ⟨way, first, rfl⟩ := Option.map_eq_some_iff.1 matched
  exact exists_skip_of_mem_ways (List.mem_of_mem_head? first)

/-- The matched text stands between its start and its end. -/
theorem after_eq_of_matchAt? (matched : pattern.matchAt? cursor = Option.some found) :
    cursor.after = found.text ++ found.stop.after ∧
      found.stop.before = found.text.reverse ++ cursor.before := by
  obtain ⟨count, stop_eq⟩ := exists_skip_of_matchAt? matched
  rw [Match.text, start_of_matchAt? matched, stop_eq, Cursor.between_skip, Cursor.after_skip,
    Cursor.before_skip]
  exact ⟨(List.take_append_drop count cursor.after).symm, rfl⟩

/-- A match takes up the bytes of its text. -/
theorem span_of_matchAt? (matched : pattern.matchAt? cursor = Option.some found) :
    found.span = ⟨cursor.offset, cursor.offset + Text.width found.text⟩ := by
  rw [Match.span, start_of_matchAt? matched, Cursor.offset, Cursor.offset,
    (after_eq_of_matchAt? matched).2, Text.width_append, Text.width_reverse, Nat.add_comm]

theorem text_ne_nil_of_matchAt? (advances : pattern.Advances)
    (matched : pattern.matchAt? cursor = Option.some found) : found.text ≠ [] := by
  intro empty
  have shorter := advances cursor found matched
  rw [(after_eq_of_matchAt? matched).1, empty, List.nil_append] at shorter
  exact Nat.lt_irrefl _ shorter

theorem isProper_of_matchAt? (advances : pattern.Advances)
    (matched : pattern.matchAt? cursor = Option.some found) : found.span.isProper := by
  have filled : Text.width found.text ≠ 0 := fun empty =>
    text_ne_nil_of_matchAt? advances matched (Text.eq_nil_of_width_eq_zero empty)
  rw [span_of_matchAt? matched, Span.isProper_iff]
  exact Nat.lt_add_of_pos_right (Nat.pos_of_ne_zero filled)

/-- A match begins and ends on boundaries of the text. -/
theorem isBoundary_of_matchAt? (matched : pattern.matchAt? cursor = Option.some found) :
    Text.IsBoundary (cursor.before.reverse ++ cursor.after) found.span.start ∧
      Text.IsBoundary (cursor.before.reverse ++ cursor.after) found.span.stop := by
  rw [span_of_matchAt? matched, (after_eq_of_matchAt? matched).1, Text.isBoundary_iff,
    Text.isBoundary_iff]
  constructor
  · exact ⟨_, _, rfl, Text.width_reverse _⟩
  · refine ⟨_, _, (List.append_assoc _ _ _).symm, ?_⟩
    rw [Text.width_append, Text.width_reverse]
    rfl

namespace Scans

variable {matches_ : List Match}

/-- What is found begins behind the place that the search begins at. -/
theorem offset_le (scans : Scans pattern cursor matches_) :
    ∀ found ∈ matches_, cursor.offset ≤ found.span.start := by
  induction scans with
  | done => simp
  | hit matched _ ih =>
      intro other member
      have span_eq := span_of_matchAt? matched
      obtain rfl | behind := List.mem_cons.1 member
      · exact Nat.le_of_eq (congrArg Span.start span_eq).symm
      · have stop_le := ih other behind
        have stop_eq : _ = _ + Text.width _ := congrArg Span.stop span_eq
        exact Nat.le_trans (Nat.le_trans (Nat.le_add_right _ _) (Nat.le_of_eq stop_eq.symm)) stop_le
  | miss _ _ ih =>
      intro other member
      have step_le := ih other member
      rw [Cursor.offset, Text.width_cons] at step_le
      exact Nat.le_trans (Nat.le_add_left _ _) step_le

/-- The matches follow each other. -/
theorem ordered (scans : Scans pattern cursor matches_) :
    matches_.Pairwise fun found other => found.span.stop ≤ other.span.start := by
  induction scans with
  | done => exact .nil
  | hit _ scans ih =>
      exact List.pairwise_cons.2 ⟨fun other behind => scans.offset_le other behind, ih⟩
  | miss _ _ ih => exact ih

/-- Everything found is found at a place of the text. -/
theorem matched (scans : Scans pattern cursor matches_) : ∀ found ∈ matches_,
    pattern.matchAt? found.start = Option.some found ∧
      found.start.before.reverse ++ found.start.after = cursor.before.reverse ++ cursor.after := by
  induction scans with
  | done => simp
  | @hit cursor found others matched _ ih =>
      obtain ⟨after_eq, before_eq⟩ := after_eq_of_matchAt? matched
      intro other member
      obtain rfl | behind := List.mem_cons.1 member
      · rw [start_of_matchAt? matched]
        exact ⟨matched, rfl⟩
      · obtain ⟨other_matched, same⟩ := ih other behind
        refine ⟨other_matched, same.trans ?_⟩
        rw [before_eq, after_eq]
        simp
  | miss _ _ ih => simpa using ih

/-- A match at the place where a search begins is the first that is found. -/
theorem exists_of_matchAt? (scans : Scans pattern cursor matches_)
    (matched : pattern.matchAt? cursor = Option.some found) :
    ∃ others, matches_ = found :: others ∧ Scans pattern found.stop others := by
  cases scans with
  | done unmatched => exact absurd (unmatched.symm.trans matched) (by simp)
  | miss unmatched => exact absurd (unmatched.symm.trans matched) (by simp)
  | hit matched' scans =>
      obtain rfl := Option.some.inj (matched.symm.trans matched')
      exact ⟨_, rfl, scans⟩

/-- What is passed over without a match has no part in what is found. -/
theorem of_append {before kept rest : List Char}
    (scans : Scans pattern ⟨before, kept ++ rest⟩ matches_)
    (missed : ∀ front back, kept = front ++ back → back ≠ [] →
      pattern.matchAt? ⟨front.reverse ++ before, back ++ rest⟩ = none) :
    Scans pattern ⟨kept.reverse ++ before, rest⟩ matches_ := by
  induction kept generalizing before with
  | nil => exact scans
  | cons char kept ih =>
      have first := missed [] (char :: kept) rfl (List.cons_ne_nil _ _)
      cases scans with
      | hit matched => exact absurd (first.symm.trans matched) (by simp)
      | miss _ scans =>
          have further := ih scans fun front back kept_eq filled => by
            have behind := missed (char :: front) back (by rw [kept_eq, List.cons_append]) filled
            simpa using behind
          simpa using further

end Scans

theorem scans_matchesFrom (advances : pattern.Advances) {rounds : Nat}
    (enough : cursor.after.length < rounds) :
    Scans pattern cursor (pattern.matchesFrom rounds cursor) := by
  induction rounds generalizing cursor with
  | zero => contradiction
  | succ rounds ih =>
      obtain ⟨before, after⟩ := cursor
      rw [matchesFrom]
      cases matched : pattern.matchAt? ⟨before, after⟩ with
      | some found =>
          have shorter := advances _ _ matched
          have fewer : found.stop.after.length < rounds := by omega
          exact .hit matched (ih fewer)
      | none =>
          cases after with
          | nil => exact .done matched
          | cons char rest =>
              have fewer : rest.length < rounds := by simpa using enough
              exact .miss matched (ih fewer)

theorem scans_findAll (advances : pattern.Advances) (text : List Char) :
    Scans pattern (Cursor.ofText text) (pattern.findAll text) :=
  scans_matchesFrom advances (Nat.lt_succ_self _)

/-! ## Substitution -/

/-- The text from a place on with a rule applied to the matches. -/
inductive Substitutes (pattern : Pattern) (rule : Rule) : Cursor → List Char → Prop
  /-- Nothing is left. -/
  | done {before : List Char} :
      pattern.matchAt? ⟨before, []⟩ = none → Substitutes pattern rule ⟨before, []⟩ []
  /-- The rule has an answer for a match. -/
  | replaced {cursor rest : Cursor} {found : Match} {new result : List Char} :
      pattern.matchAt? cursor = Option.some found → rule found = Option.some (new, rest) →
      Substitutes pattern rule rest result → Substitutes pattern rule cursor (new ++ result)
  /-- The rule has no answer for a match. -/
  | kept {cursor : Cursor} {found : Match} {result : List Char} :
      pattern.matchAt? cursor = Option.some found → rule found = none →
      Substitutes pattern rule found.stop result →
      Substitutes pattern rule cursor (found.text ++ result)
  /-- A character is passed over. -/
  | miss {before after : List Char} {char : Char} {result : List Char} :
      pattern.matchAt? ⟨before, char :: after⟩ = none →
      Substitutes pattern rule ⟨char :: before, after⟩ result →
      Substitutes pattern rule ⟨before, char :: after⟩ (char :: result)

/-- The rule goes on behind the start of the match. -/
def Rule.GoesAhead (rule : Rule) (pattern : Pattern) : Prop :=
  ∀ cursor found new rest, pattern.matchAt? cursor = Option.some found →
    rule found = Option.some (new, rest) → rest.after.length < cursor.after.length

variable {rule : Rule}

theorem substitutes_substituteFrom (advances : pattern.Advances) (ahead : rule.GoesAhead pattern)
    {rounds : Nat} (enough : cursor.after.length < rounds) :
    Substitutes pattern rule cursor (pattern.substituteFrom rule rounds cursor) := by
  induction rounds generalizing cursor with
  | zero => contradiction
  | succ rounds ih =>
      obtain ⟨before, after⟩ := cursor
      rw [substituteFrom]
      cases matched : pattern.matchAt? ⟨before, after⟩ with
      | some found =>
          have shorter := advances _ _ matched
          cases answered : rule found with
          | some answer =>
              obtain ⟨new, rest⟩ := answer
              have rest_shorter := ahead _ _ _ _ matched answered
              have fewer : rest.after.length < rounds := by omega
              simpa only [answered] using .replaced matched answered (ih fewer)
          | none =>
              have fewer : found.stop.after.length < rounds := by omega
              simpa only [answered] using .kept matched answered (ih fewer)
      | none =>
          cases after with
          | nil => exact .done matched
          | cons char rest =>
              have fewer : rest.length < rounds := by simpa using enough
              exact .miss matched (ih fewer)

theorem substitutes_substitute (advances : pattern.Advances) (ahead : rule.GoesAhead pattern)
    (text : List Char) :
    Substitutes pattern rule (Cursor.ofText text) (pattern.substitute rule text) :=
  substitutes_substituteFrom advances ahead (Nat.lt_succ_self _)

/-- What is passed over without a match stays. -/
theorem Substitutes.exists_append {before kept rest result : List Char}
    (substitutes : Substitutes pattern rule ⟨before, kept ++ rest⟩ result)
    (missed : ∀ front back, kept = front ++ back → back ≠ [] →
      pattern.matchAt? ⟨front.reverse ++ before, back ++ rest⟩ = none) :
    ∃ later, result = kept ++ later := by
  induction kept generalizing before result with
  | nil => exact ⟨result, rfl⟩
  | cons char kept ih =>
      have first := missed [] (char :: kept) rfl (List.cons_ne_nil _ _)
      cases substitutes with
      | replaced matched => exact absurd (first.symm.trans matched) (by simp)
      | kept matched => exact absurd (first.symm.trans matched) (by simp)
      | miss _ substitutes =>
          obtain ⟨later, rfl⟩ := ih substitutes fun front back kept_eq filled => by
            have further := missed (char :: front) back (by rw [kept_eq, List.cons_append]) filled
            simpa using further
          exact ⟨later, rfl⟩

/-- Leaving out the matches goes ahead. -/
theorem substitutes_erase (advances : pattern.Advances) (text : List Char) :
    Substitutes pattern (fun found => Option.some ([], found.stop)) (Cursor.ofText text)
      (pattern.erase text) := by
  apply substitutes_substitute advances
  intro cursor found new rest matched answered
  obtain ⟨-, rfl⟩ := Prod.mk.inj (Option.some.inj answered)
  exact advances cursor found matched

end Pattern
end Shakedown
