import Shakedown.Proofs.Edit.Meaning
import Shakedown.Proofs.Text.Infix

/-!
# Words of an edited text

An edited text may hold words that the text does not hold: where something is inserted, and where two
parts come together because what stood between them is left out. It holds no such words when every
gap begins with an insertion and no word reaches into what is inserted.
-/

namespace Shakedown
namespace Text

variable {word piece other front back : List Char}

/-- A word does not reach into a piece: with the piece between two texts it stands in one of them. -/
def Parts (word piece : List Char) : Prop :=
  ∀ front back, word <:+: front ++ piece ++ back → word <:+: front ∨ word <:+: back

theorem prefix_of_prefix_append_cons {char : Char} (apart : char ∉ word)
    (begins : word <+: front ++ char :: back) : word <+: front := by
  induction front generalizing word with
  | nil =>
      cases word with
      | nil => exact List.prefix_rfl
      | cons first others =>
          obtain ⟨rfl, -⟩ := List.cons_prefix_cons.1 begins
          exact absurd List.mem_cons_self apart
  | cons head front ih =>
      cases word with
      | nil => exact List.nil_prefix
      | cons first others =>
          obtain ⟨rfl, others_begin⟩ := List.cons_prefix_cons.1 begins
          have behind := ih (fun member => apart (List.mem_cons_of_mem _ member)) others_begin
          exact List.cons_prefix_cons.2 ⟨rfl, behind⟩

/-- A word does not reach over a character that it does not hold. -/
theorem parts_singleton {char : Char} (apart : char ∉ word) : Parts word [char] := by
  intro front back held
  induction front with
  | nil =>
      obtain begins | held := List.infix_cons_iff.1 held
      · have begins : word <+: [] ++ char :: back := begins
        exact .inl (prefix_of_prefix_append_cons apart begins).isInfix
      · exact .inr held
  | cons head front ih =>
      rw [List.cons_append, List.cons_append] at held
      obtain begins | held := List.infix_cons_iff.1 held
      · have begins : word <+: (head :: front) ++ char :: back := by simpa using begins
        exact .inl (prefix_of_prefix_append_cons apart begins).isInfix
      · exact (ih held).imp_left List.infix_cons

theorem Parts.append (filled : word ≠ []) (parts : Parts word piece)
    (also_parts : Parts word other) : Parts word (piece ++ other) := by
  intro front back held
  rw [← List.append_assoc] at held
  obtain held | held := also_parts _ _ held
  · obtain held | held := parts front [] (by simpa using held)
    · exact .inl held
    · exact absurd (List.eq_nil_of_infix_nil held) filled
  · exact .inr held

/-- A word does not reach into a piece that does not hold it and whose ends it does not hold. -/
theorem parts_of_ends {opens closes : Char} {inner : List Char}
    (opens_apart : opens ∉ word) (closes_apart : closes ∉ word) (outside : ¬word <:+: inner) :
    Parts word (opens :: (inner ++ [closes])) := by
  intro front back held
  have split : front ++ opens :: (inner ++ [closes]) ++ back =
      front ++ [opens] ++ (inner ++ [closes] ++ back) := by simp
  rw [split] at held
  obtain held | held := parts_singleton opens_apart _ _ held
  · exact .inl held
  · exact (parts_singleton closes_apart _ _ held).imp_left fun stands => absurd stands outside

/-- A word does not reach into pieces that it does not reach into one by one. -/
theorem parts_flatMap {Item : Type} (filled : word ≠ []) {items : List Item}
    {piece : Item → List Char} (each : ∀ item ∈ items, piece item = [] ∨ Parts word (piece item)) :
    items.flatMap piece = [] ∨ Parts word (items.flatMap piece) := by
  induction items with
  | nil => exact .inl rfl
  | cons first rest ih =>
      rw [List.flatMap_cons]
      have behind := ih fun item member => each item (List.mem_cons_of_mem _ member)
      obtain none | parts := each first List.mem_cons_self
      · simpa [none] using behind
      · obtain none | also_parts := behind
        · exact .inr (by simpa [none] using parts)
        · exact .inr (parts.append filled also_parts)

end Text

namespace Meaning

open Text

section Stretch

variable {word : List Char} {gaps : List Span} {put : Nat → List Char}

/-- A gap does not begin inside a character. -/
theorem clear_behind {char : Char} {before rest : List Char}
    (boundaries : ∀ gap ∈ gaps, IsBoundary (before ++ char :: rest) gap.start)
    (outside : gaps.any (·.holds (width before)) = false) :
    gaps.any (·.surrounds (width before + char.utf8Size)) = false := by
  rw [List.any_eq_false] at outside ⊢
  intro gap listed surrounded
  apply outside gap listed
  rw [Span.surrounds_iff] at surrounded
  rw [Span.holds_iff]
  refine ⟨Nat.le_of_not_lt fun inside => ?_, by omega⟩
  obtain ⟨first, second, split, first_eq⟩ := isBoundary_iff.1 (boundaries gap listed)
  obtain ⟨middle, longer, tail_eq⟩ := exists_eq_append_of_width_le split (by omega)
  cases middle with
  | nil => simp [longer] at first_eq; omega
  | cons head middle =>
      obtain ⟨rfl, -⟩ := List.cons.inj tail_eq
      rw [longer, width_append, width_cons] at first_eq
      omega

/-- Where nothing is put and no gap is under way, no gap begins. -/
theorem outside_of_clear {offset : Nat} (filled : ∀ gap ∈ gaps, put gap.start ≠ [])
    (none : put offset = []) (clear : gaps.any (·.surrounds offset) = false) :
    gaps.any (·.holds offset) = false := by
  rw [List.any_eq_false] at clear ⊢
  intro gap listed holds
  have not_inside := clear gap listed
  rw [Span.surrounds_iff] at not_inside
  rw [Span.holds_iff] at holds
  have begins : gap.start = offset := by omega
  exact filled gap listed (begins ▸ none)

/-- A stretch of an edited text holds no new words. Behind anything that stays it makes none either,
unless it begins inside a gap. -/
theorem infix_of_infix_stretch (pieces : ∀ offset, put offset = [] ∨ Parts word (put offset))
    (filled : ∀ gap ∈ gaps, put gap.start ≠ []) {before text : List Char}
    (boundaries : ∀ gap ∈ gaps, IsBoundary (before ++ text) gap.start) :
    (word <:+: read gaps put (width before) text → word <:+: text) ∧
      (gaps.any (·.surrounds (width before)) = false → ∀ front,
        word <:+: front ++ read gaps put (width before) text → word <:+: front ++ text) := by
  induction text generalizing before with
  | nil => exact ⟨id, fun _ _ => id⟩
  | cons char rest ih =>
      have later : ∀ gap ∈ gaps, IsBoundary (before ++ [char] ++ rest) gap.start := by
        simpa using boundaries
      have behind := ih later
      rw [width_append, width_cons, width_nil, Nat.add_zero] at behind
      obtain ⟨alone, joined⟩ := behind
      rw [read, List.append_assoc]
      generalize read gaps put (width before + char.utf8Size) rest = result at alone joined ⊢
      -- the character and what is behind it, without what is put before it
      have tail : (word <:+: (if gaps.any (·.holds (width before)) then [] else [char]) ++ result →
            word <:+: char :: rest) ∧
          (gaps.any (·.holds (width before)) = false → ∀ front,
            word <:+: front ++ ([char] ++ result) → word <:+: front ++ char :: rest) := by
        have kept (outside : gaps.any (·.holds (width before)) = false) (front : List Char)
            (stands : word <:+: front ++ ([char] ++ result)) : word <:+: front ++ char :: rest := by
          have stands := joined (clear_behind boundaries outside) (front ++ [char])
            (by simpa using stands)
          simpa using stands
        refine ⟨fun stands => ?_, kept⟩
        cases held : gaps.any (·.holds (width before)) with
        | true => exact List.infix_cons (alone (by simpa [held] using stands))
        | false => exact kept held [] (by simpa [held] using stands)
      obtain ⟨tail_alone, tail_joined⟩ := tail
      obtain none | parts := pieces (width before)
      · rw [none, List.nil_append]
        refine ⟨tail_alone, fun clear front stands => ?_⟩
        have outside := outside_of_clear filled none clear
        rw [outside, if_neg Bool.false_ne_true] at stands
        exact tail_joined outside front stands
      · have either (front : List Char) (stands : word <:+: front ++ (put (width before) ++
            ((if gaps.any (·.holds (width before)) then [] else [char]) ++ result))) :
            word <:+: front ++ char :: rest := by
          rw [← List.append_assoc] at stands
          obtain stands | stands := parts _ _ stands
          · exact stands.trans (List.prefix_append _ _).isInfix
          · exact (tail_alone stands).trans (List.suffix_append _ _).isInfix
        exact ⟨fun stands => either [] stands, fun _ front stands => either front stands⟩

end Stretch

/-- An edited text holds no new words when every gap begins with an insertion and no word reaches
into what is inserted. -/
theorem infix_of_infix_text {word source : List Char} {edits : List Edit} (filled : word ≠ [])
    (pieces : ∀ offset, put source edits offset = [] ∨ Parts word (put source edits offset))
    (boundaries : ∀ gap ∈ gaps edits, IsBoundary source gap.start)
    (filled_gaps : ∀ gap ∈ gaps edits, put source edits gap.start ≠ [])
    (stands : word <:+: text source edits) : word <:+: source := by
  have from_start : ∀ gap ∈ gaps edits, IsBoundary ([] ++ source) gap.start := boundaries
  have within := (infix_of_infix_stretch pieces filled_gaps from_start).1
  unfold text at stands
  obtain none | parts := pieces (width source)
  · exact within (by simpa [none] using stands)
  · obtain stands | stands := parts _ [] (by simpa using stands)
    · exact within stands
    · exact absurd (List.eq_nil_of_infix_nil stands) filled

end Meaning
end Shakedown
