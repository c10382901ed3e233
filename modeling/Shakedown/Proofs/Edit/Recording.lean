import Shakedown.Proofs.Edit.Meaning

/-!
# What recording adds

Recording keeps what was recorded before, or leaves insertions out of it, and adds one edit. So
what a pass records is known item by item.
-/

namespace Shakedown

/-- The text that an edit inserts at a place. -/
def Edit.textAt? (place : Nat) : Edit → Option String
  | .insert position text => if position = place then some text else none
  | _ => none

namespace Revision

/-- The texts that are inserted at a place, in order. -/
def textsAt (revision : Revision) (place : Nat) : List String :=
  revision.edits.filterMap (Edit.textAt? place)

/-- The ranges that a revision takes out of their places. -/
def cuts (revision : Revision) : List Span :=
  revision.edits.filterMap Edit.gap?

/-- The ranges that the moves of a revision leave out. -/
def moved (revision : Revision) : List Span :=
  revision.edits.filterMap Edit.removed?

variable {revision : Revision} {position : Nat} {text : String} {span : Span} {edit : Edit}

theorem mem_edits_insert (member : edit ∈ (revision.insert position text).edits) :
    edit ∈ revision.edits ∨ edit = .insert position text := by
  simpa [insert, record] using member

theorem mem_edits_insertFirst (member : edit ∈ (revision.insertFirst position text).edits) :
    edit ∈ revision.edits ∨ edit = .insert position text :=
  (List.mem_cons.1 member).symm

theorem mem_edits_remove (member : edit ∈ (revision.remove span).edits) :
    edit ∈ revision.edits ∨ edit = .remove span := by
  unfold remove at member
  split at member
  · simpa [record] using member
  · exact .inl member

theorem mem_edits_cutOut (member : edit ∈ (revision.cutOut span).edits) :
    edit ∈ revision.edits ∨ edit = .remove span := by
  unfold cutOut at member
  split at member
  · obtain kept | new := List.mem_append.1 member
    · exact .inl (List.mem_filter.1 kept).1
    · exact .inr (List.mem_singleton.1 new)
  · exact .inl member

theorem mem_edits_remove_of_mem (member : edit ∈ revision.edits) :
    edit ∈ (revision.remove span).edits := by
  unfold remove
  split
  · exact List.mem_append_left _ member
  · exact member

theorem mem_edits_remove_self (proper : span.isProper) :
    .remove span ∈ (revision.remove span).edits := by
  rw [remove, if_pos proper]
  exact List.mem_append_right _ List.mem_cons_self

/-- Cutting out leaves other removals. -/
theorem mem_edits_cutOut_of_mem {other : Span} (member : .remove other ∈ revision.edits) :
    .remove other ∈ (revision.cutOut span).edits := by
  unfold cutOut
  split
  · exact List.mem_append_left _ (List.mem_filter.2 ⟨member, rfl⟩)
  · exact member

theorem mem_edits_cutOut_self (proper : span.isProper) :
    .remove span ∈ (revision.cutOut span).edits := by
  rw [cutOut, if_pos proper]
  exact List.mem_append_right _ List.mem_cons_self

/-! ## Inserted texts -/

section TextsAt

variable {place : Nat}

theorem mem_textsAt : text ∈ revision.textsAt place ↔ .insert place text ∈ revision.edits := by
  rw [textsAt, List.mem_filterMap]
  constructor
  · rintro ⟨edit, member, found⟩
    cases edit with
    | insert position new =>
        simp only [Edit.textAt?, Option.ite_none_right_eq_some, Option.some.injEq] at found
        obtain ⟨rfl, rfl⟩ := found
        exact member
    | remove => contradiction
    | move => contradiction
  · exact fun member => ⟨_, member, by simp [Edit.textAt?]⟩

theorem textsAt_insert : (revision.insert position text).textsAt place =
    revision.textsAt place ++ if position = place then [text] else [] := by
  by_cases here : position = place <;>
    simp [insert, record, textsAt, Edit.textAt?, here]

theorem textsAt_insertFirst : (revision.insertFirst position text).textsAt place =
    (if position = place then [text] else []) ++ revision.textsAt place := by
  by_cases here : position = place <;>
    simp [insertFirst, textsAt, Edit.textAt?, here]

theorem textsAt_remove : (revision.remove span).textsAt place = revision.textsAt place := by
  unfold remove
  split
  · simp [record, textsAt, Edit.textAt?]
  · rfl

/-- Cutting out takes the texts at a place of the range away and leaves all others. -/
theorem textsAt_cutOut : (revision.cutOut span).textsAt place =
    if span.holds place then [] else revision.textsAt place := by
  unfold cutOut
  split
  · split
    · rename_i held
      simp only [textsAt, List.filterMap_append, List.append_eq_nil_iff]
      refine ⟨List.filterMap_eq_nil_iff.2 fun edit member => ?_, rfl⟩
      cases edit with
      | insert position new =>
          obtain ⟨-, outside⟩ := List.mem_filter.1 member
          refine if_neg ?_
          rintro rfl
          simp [held] at outside
      | remove => rfl
      | move => rfl
    · rename_i free
      simp only [textsAt, List.filterMap_append]
      induction revision.edits with
      | nil => rfl
      | cons edit rest ih =>
          cases edit with
          | insert position new =>
              by_cases here : position = place
              · subst here
                simpa [Edit.textAt?, free] using ih
              · by_cases held : span.holds position <;>
                  simpa [Edit.textAt?, here, held] using ih
          | remove => exact ih
          | move => exact ih
  · rename_i improper
    rw [if_neg]
    exact fun held => improper (Span.isProper_of_holds held)

end TextsAt

/-- When a step adds at most what belongs to its item, all steps add at most what belongs to their
items. -/
theorem mem_edits_foldl {Item : Type} {step : Revision → Item → Revision} (belongs : Item → Edit → Prop)
    (adds : ∀ revision item, ∀ edit ∈ (step revision item).edits,
      edit ∈ revision.edits ∨ belongs item edit) {items : List Item}
    (member : edit ∈ (items.foldl step revision).edits) :
    edit ∈ revision.edits ∨ ∃ item ∈ items, belongs item edit := by
  induction items generalizing revision with
  | nil => exact .inl member
  | cons item rest ih =>
      obtain before | ⟨other, listed, added⟩ := ih member
      · refine (adds revision item edit before).imp_right fun added => ?_
        exact ⟨item, List.mem_cons_self, added⟩
      · exact .inr ⟨other, List.mem_cons_of_mem _ listed, added⟩

theorem isGone_record_eq (revision : Revision) (edit : Edit) (span : Span) :
    (revision.record edit).isGone span =
      (revision.isGone span || edit.gap?.any (·.covers span)) := by
  simp [isGone, record]

/-- What covers a range goes on covering it. -/
theorem isGone_record (gone : revision.isGone span) : (revision.record edit).isGone span := by
  rw [isGone_record_eq, gone, Bool.true_or]

end Revision
end Shakedown
