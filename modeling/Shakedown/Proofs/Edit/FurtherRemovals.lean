import Shakedown.Proofs.Edit.Occurrence

/-!
# Leaving out what no edit touches

Further ranges are left out of an edited text. When no edit reaches into them, everything else is put
where it was put before.
-/

namespace Shakedown
namespace Meaning

open Text

/-- Nothing that the edits do reaches into the range. -/
structure IsUntouched (edits : List Edit) (span : Span) : Prop where
  /-- What is left out is apart. -/
  gaps : ∀ gap ∈ gaps edits, gap.isApart span
  /-- Nothing is inserted between the ends. -/
  insertions : ∀ position text, .insert position text ∈ edits → span.surrounds position = false
  /-- No body arrives there. -/
  targets : ∀ body removed target suffix, .move body removed target suffix ∈ edits →
    span.holds target = false

/-- The edits and removals behind them. -/
def withRemovals (edits : List Edit) (further : List Span) : List Edit :=
  edits ++ further.map Edit.remove

variable {source : List Char} {edits : List Edit} {further : List Span} {span body : Span}
  {offset : Nat}

theorem IsUntouched.holds_eq_false (untouched : IsUntouched edits span) (held : span.holds offset) :
    (Meaning.gaps edits).any (·.holds offset) = false := by
  rw [List.any_eq_false]
  exact fun gap member also_held =>
    Span.not_isApart_of_holds also_held held (untouched.gaps gap member)

/-- Nothing is put between the ends of an untouched range. -/
theorem IsUntouched.put_eq_nil (untouched : IsUntouched edits span)
    (surrounded : span.surrounds offset) : put source edits offset = [] := by
  rw [put, List.flatMap_eq_nil_iff]
  intro edit member
  cases edit with
  | insert position text =>
      have different : position ≠ offset := by
        rintro rfl
        exact Bool.false_ne_true ((untouched.insertions _ _ member).symm.trans surrounded)
      simp [contribution, different]
  | remove => rfl
  | move body removed target suffix =>
      have different : target ≠ offset := by
        rintro rfl
        have held := Span.holds_of_surrounds surrounded
        exact Bool.false_ne_true ((untouched.targets _ _ _ _ member).symm.trans held)
      simp [contribution, different]

theorem mem_withRemovals {edit : Edit} : edit ∈ withRemovals edits further ↔
    edit ∈ edits ∨ ∃ span ∈ further, edit = .remove span := by
  rw [withRemovals, List.mem_append, List.mem_map]
  simp only [eq_comm]

/-- A move among the edits is not one of the removals. -/
theorem move_mem_withRemovals {removed : Span} {target : Nat} {suffix : String} :
    .move body removed target suffix ∈ withRemovals edits further ↔
      .move body removed target suffix ∈ edits := by
  simp [mem_withRemovals]

/-- Ranges of the text that may be left out further. -/
structure Further (source : List Char) (edits : List Edit) (further : List Span) : Prop where
  /-- The edits have a meaning. -/
  tidy : Tidy source edits
  /-- No range is empty. -/
  proper : ∀ span ∈ further, span.isProper
  /-- Every range begins and ends on a boundary of the text. -/
  boundaries : ∀ span ∈ further, IsBoundary source span.start ∧ IsBoundary source span.stop
  /-- The ranges are apart. -/
  apart : further.Pairwise fun first second => first.stop ≤ second.start
  /-- No edit reaches into them. -/
  untouched : ∀ span ∈ further, IsUntouched edits span

namespace Further

variable (more : Further source edits further)

include more

theorem gaps_eq : gaps (withRemovals edits further) = gaps edits ++ further := by
  have all_proper : further.filter Span.isProper = further := List.filter_eq_self.2 more.proper
  have removed : further.filterMap (Edit.gap? ∘ Edit.remove) = further := List.filterMap_some
  rw [gaps, withRemovals, List.filterMap_append, List.filterMap_map, removed, List.filter_append,
    all_proper]
  rfl

/-- What a move leaves out is apart from the further ranges. -/
theorem moved_apart {removed : Span} {target : Nat} {suffix : String}
    (member : .move body removed target suffix ∈ edits) (listed : span ∈ further) :
    removed.isApart span := by
  obtain ⟨body_proper, inside⟩ := more.tidy.bodies _ _ _ _ member
  have removed_proper := Span.isProper_of_holds
    (Span.holds_of_covers inside (Span.holds_start body_proper))
  exact (more.untouched span listed).gaps removed
    (mem_gaps_iff.2 ⟨⟨_, member, rfl⟩, removed_proper⟩)

/-- Inside a body nothing more is removed. -/
theorem removals_eq {removed : Span} {target : Nat} {suffix : String}
    (member : .move body removed target suffix ∈ edits) :
    removals (withRemovals edits further) body = removals edits body := by
  have none_inside : ((further.map Edit.remove).filterMap Edit.removal?).filter body.covers = [] := by
    rw [List.filter_eq_nil_iff]
    intro span listed inside
    obtain ⟨edit, removes, found⟩ := List.mem_filterMap.1 listed
    obtain ⟨other, among, rfl⟩ := List.mem_map.1 removes
    obtain ⟨same, -⟩ := Edit.removal?_eq_some_iff.1 found
    obtain rfl := Edit.remove.inj same
    have held := Span.holds_start (more.proper other among)
    have outside := Span.holds_of_covers (more.tidy.bodies _ _ _ _ member).2
      (Span.holds_of_covers inside held)
    exact Span.not_isApart_of_holds outside held (more.moved_apart member among)
  rw [removals, withRemovals, List.filterMap_append, List.filter_append, none_inside,
    List.append_nil]
  rfl

omit more in
theorem inserted_withRemovals (offset : Nat) :
    inserted (withRemovals edits further) offset = inserted edits offset := by
  have none_new (spans : List Span) : inserted (spans.map Edit.remove) offset = [] := by
    simp [inserted, List.flatMap_map]
  have split : inserted (withRemovals edits further) offset =
      inserted edits offset ++ inserted (further.map Edit.remove) offset := List.flatMap_append
  rw [split, none_new, List.append_nil]

theorem bodyText_eq {removed : Span} {target : Nat} {suffix : String}
    (member : .move body removed target suffix ∈ edits) :
    bodyText source (withRemovals edits further) body = bodyText source edits body := by
  have removals_eq := more.removals_eq member
  have putInside_eq : putInside (withRemovals edits further) body = putInside edits body := by
    funext offset
    rw [putInside, putInside, removals_eq, inserted_withRemovals]
  rw [bodyText, bodyText, removals_eq, putInside_eq]

theorem stays_eq {position : Nat} {text : String} (member : .insert position text ∈ edits) :
    stays (withRemovals edits further) position = stays edits position := by
  have none_around : further.any (·.surrounds position) = false :=
    List.any_eq_false.2 fun span listed =>
      Bool.eq_false_iff.1 ((more.untouched span listed).insertions position text member)
  have none_along : (further.map Edit.remove).any (Edit.takesAlong position) = false := by
    rw [List.any_map, List.any_eq_false]
    exact fun span _ => Bool.false_ne_true
  rw [stays, more.gaps_eq, List.any_append, none_around, withRemovals, List.any_append,
    none_along, Bool.or_false, Bool.or_false]
  rfl

/-- What the edits put stays the same. -/
theorem put_eq (offset : Nat) :
    put source (withRemovals edits further) offset = put source edits offset := by
  have none_new (spans : List Span) :
      (spans.map Edit.remove).flatMap (contribution source (withRemovals edits further) offset) =
        [] := by
    simp [contribution, List.flatMap_map]
  have same : ∀ edit ∈ edits, contribution source (withRemovals edits further) offset edit =
      contribution source edits offset edit := by
    intro edit member
    cases edit with
    | remove => rfl
    | move body removed target suffix =>
        rw [contribution, contribution, more.bodyText_eq member]
    | insert position text =>
        by_cases here : position = offset
        · subst here
          rw [contribution, contribution, more.stays_eq member]
        · simp [contribution, here]
  have split : put source (withRemovals edits further) offset =
      edits.flatMap (contribution source (withRemovals edits further) offset) ++
        (further.map Edit.remove).flatMap
          (contribution source (withRemovals edits further) offset) := List.flatMap_append
  rw [split, none_new, List.append_nil, put, List.flatMap_def, List.flatMap_def]
  exact congrArg List.flatten (List.map_congr_left same)

/-- The further removals leave the edits a meaning. -/
theorem tidy_withRemovals : Tidy source (withRemovals edits further) := by
  have removed_eq : (withRemovals edits further).filterMap Edit.removed? =
      edits.filterMap Edit.removed? := by
    have none_new (spans : List Span) : (spans.map Edit.remove).filterMap Edit.removed? = [] := by
      simp [Edit.removed?]
    rw [withRemovals, List.filterMap_append, none_new, List.append_nil]
  constructor
  case boundaries =>
    intro edit member
    obtain before | ⟨span, listed, rfl⟩ := mem_withRemovals.1 member
    · exact more.tidy.boundaries edit before
    · simpa [Edit.offsets] using more.boundaries span listed
  case nested =>
    intro first first_gap second second_gap
    rw [more.gaps_eq, List.mem_append] at first_gap second_gap
    obtain first_gap | first_further := first_gap <;>
      obtain second_gap | second_further := second_gap
    · exact more.tidy.nested first first_gap second second_gap
    · exact .inl ((more.untouched second second_further).gaps first first_gap)
    · rw [Span.isApart_comm]
      exact .inl ((more.untouched first first_further).gaps second second_gap)
    · obtain rfl | apart := Span.eq_or_isApart id more.apart first_further second_further
      · exact .inr (.inl (Span.covers_refl first))
      · exact .inl apart
  case movesApart =>
    rw [removed_eq]
    exact more.tidy.movesApart
  case bodies =>
    intro body removed target suffix member
    exact more.tidy.bodies body removed target suffix (move_mem_withRemovals.1 member)
  case removalsApart =>
    intro span member
    rw [removed_eq]
    rw [withRemovals, List.filterMap_append, List.mem_append] at member
    obtain before | removes := member
    · obtain all_apart | ⟨body, removed, target, suffix, move, inside⟩ :=
        more.tidy.removalsApart span before
      · exact .inl all_apart
      · exact .inr ⟨body, removed, target, suffix, move_mem_withRemovals.2 move, inside⟩
    · obtain ⟨edit, listed, found⟩ := List.mem_filterMap.1 removes
      obtain ⟨other, among, rfl⟩ := List.mem_map.1 listed
      obtain rfl := Edit.remove.inj (Edit.removal?_eq_some_iff.1 found).1
      refine .inl fun removed moved => ?_
      obtain ⟨move, move_mem, removed_eq⟩ := List.mem_filterMap.1 moved
      cases move with
      | insert | remove => contradiction
      | move body removed target suffix =>
          obtain rfl := Option.some.inj removed_eq
          rw [Span.isApart_comm]
          exact more.moved_apart move_mem among
  case targets =>
    intro body removed target suffix member gap gap_mem
    rw [move_mem_withRemovals] at member
    rw [more.gaps_eq, List.mem_append] at gap_mem
    obtain before | new := gap_mem
    · exact more.tidy.targets _ _ _ _ member gap before
    · exact (more.untouched gap new).targets _ _ _ _ member

end Further

end Meaning
end Shakedown
