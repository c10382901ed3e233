import Shakedown.Proofs.SourceMap.Governing
import Shakedown.SourceMap.Compose

/-!
# Segments in reading order

Sorting leaves segments of one place in the order they had, and dropping the repeated ones then keeps
the first. So segments put in order stand in strict reading order, and of those at one place the first
is left.
-/

namespace Shakedown
namespace SourceMap

open Segment (Governs)

/-- The first of the segments at a place. -/
def firstAt? (segments : List Segment) (place : Position) : Option Segment :=
  segments.find? fun segment => segment.generated = place

theorem of_firstAt? {segments : List Segment} {place : Position} {segment : Segment}
    (first : firstAt? segments place = some segment) :
    segment ∈ segments ∧ segment.generated = place :=
  ⟨List.mem_of_find?_eq_some first, by simpa using List.find?_some first⟩

theorem firstAt?_eq_none_iff {segments : List Segment} {place : Position} :
    firstAt? segments place = none ↔ ∀ segment ∈ segments, segment.generated ≠ place := by
  simp [firstAt?]

theorem firstAt?_append (front back : List Segment) (place : Position) :
    firstAt? (front ++ back) place = (firstAt? front place).or (firstAt? back place) :=
  List.find?_append

theorem firstAt?_cons (segment : Segment) (rest : List Segment) (place : Position) :
    firstAt? (segment :: rest) place =
      if segment.generated = place then some segment else firstAt? rest place := by
  rw [firstAt?, List.find?_cons]
  by_cases here : segment.generated = place <;> simp [here, firstAt?]

theorem firstAt?_of_nodup {segments : List Segment}
    (distinct : (segments.map Segment.generated).Nodup) {segment : Segment}
    (member : segment ∈ segments) : firstAt? segments segment.generated = some segment := by
  cases found : firstAt? segments segment.generated with
  | none => exact absurd rfl (firstAt?_eq_none_iff.1 found segment member)
  | some other =>
      obtain ⟨other_mem, same⟩ := of_firstAt? found
      rw [List.inj_on_of_nodup_map distinct other_mem member same]

/-! ## Sorting -/

/-- Segments of one place need no sorting, so sorting keeps their order. -/
theorem filter_mergeSort (segments : List Segment) (place : Position) :
    (segments.mergeSort fun left right => !right.generated.before left.generated).filter
        (fun segment => segment.generated = place) =
      segments.filter fun segment => segment.generated = place := by
  have sorted : (segments.filter fun segment => segment.generated = place).Pairwise
      fun left right => !right.generated.before left.generated := by
    refine List.pairwise_of_forall_mem_list fun left left_mem right right_mem => ?_
    obtain ⟨-, left_eq⟩ := List.mem_filter.1 left_mem
    obtain ⟨-, right_eq⟩ := List.mem_filter.1 right_mem
    rw [of_decide_eq_true left_eq, of_decide_eq_true right_eq, Bool.not_eq_true', ← Bool.not_eq_true,
      Position.before_iff]
    omega
  have kept := List.sublist_mergeSort
    (fun first second third : Segment =>
      Position.not_before_trans first.generated second.generated third.generated)
    (fun first second => Position.not_before_total first.generated second.generated)
    sorted List.filter_sublist
  have within := kept.filter fun segment => segment.generated = place
  simp only [List.filter_filter, Bool.and_self] at within
  refine (within.eq_of_length ?_).symm
  exact ((List.mergeSort_perm segments _).filter _).length_eq.symm

theorem firstAt?_mergeSort (segments : List Segment) (place : Position) :
    firstAt? (segments.mergeSort fun left right => !right.generated.before left.generated) place =
      firstAt? segments place := by
  rw [firstAt?, ← List.head?_filter, filter_mergeSort, List.head?_filter, firstAt?]

/-! ## Dropping what is repeated -/

theorem firstAt?_dropRepeated (segments : List Segment) (place : Position) :
    firstAt? (dropRepeated segments) place = firstAt? segments place := by
  induction segments with
  | nil => rfl
  | cons segment rest ih =>
      rw [dropRepeated, firstAt?_cons, firstAt?_cons, ← ih]
      by_cases here : segment.generated = place
      · rw [if_pos here, if_pos here]
      · rw [if_neg here, if_neg here]
        cases dropRepeated rest with
        | nil => rfl
        | cons next others =>
            simp only
            split
            · rename_i same
              rw [firstAt?_cons, if_neg (same ▸ here)]
            · rfl

theorem dropRepeated_sublist (segments : List Segment) :
    (dropRepeated segments).Sublist segments := by
  induction segments with
  | nil => exact .slnil
  | cons segment rest ih =>
      rw [dropRepeated]
      apply List.Sublist.cons_cons
      cases kept : dropRepeated rest with
      | nil => exact List.nil_sublist rest
      | cons next others =>
          rw [kept] at ih
          simp only
          split
          · exact (List.sublist_cons_self next others).trans ih
          · exact ih

/-- Where no segment stands before an earlier one, dropping the repeated ones makes the order strict. -/
theorem pairwise_before_dropRepeated {segments : List Segment}
    (sorted : segments.Pairwise fun earlier later => !later.generated.before earlier.generated) :
    (dropRepeated segments).Pairwise fun earlier later =>
      earlier.generated.before later.generated := by
  induction segments with
  | nil => exact .nil
  | cons segment rest ih =>
      obtain ⟨segment_first, rest_sorted⟩ := List.pairwise_cons.1 sorted
      have rest_strict := ih rest_sorted
      have within := (dropRepeated_sublist rest).subset
      rw [dropRepeated]
      cases kept : dropRepeated rest with
      | nil => exact List.pairwise_singleton _ _
      | cons next others =>
          rw [kept] at rest_strict within
          have next_before := (List.pairwise_cons.1 rest_strict).1
          simp only
          split
          · rename_i same
            exact .cons (same ▸ next_before) (List.pairwise_cons.1 rest_strict).2
          · rename_i apart
            have ahead : segment.generated.before next.generated := by
              have not_behind := segment_first next (within List.mem_cons_self)
              rw [Bool.not_eq_true', ← Bool.not_eq_true, Position.before_iff] at not_behind
              rw [Position.eq_iff] at apart
              rw [Position.before_iff]
              omega
            refine .cons ?_ rest_strict
            intro later member
            rcases List.mem_cons.1 member with rfl | behind
            · exact ahead
            · exact Position.before_trans ahead (next_before later behind)

/-! ## Segments put in order -/

theorem firstAt?_inOrder (segments : List Segment) (place : Position) :
    firstAt? (inOrder segments) place = firstAt? segments place := by
  rw [inOrder, firstAt?_dropRepeated, firstAt?_mergeSort]

/-- Segments put in order stand in strict reading order, however they stood before. -/
theorem pairwise_before_inOrder (segments : List Segment) :
    (inOrder segments).Pairwise fun earlier later =>
      earlier.generated.before later.generated :=
  pairwise_before_dropRepeated (List.pairwise_mergeSort
    (fun first second third : Segment =>
      Position.not_before_trans first.generated second.generated third.generated)
    (fun first second => Position.not_before_total first.generated second.generated) segments)

theorem mem_of_mem_inOrder {segments : List Segment} {segment : Segment}
    (member : segment ∈ inOrder segments) : segment ∈ segments :=
  List.mem_mergeSort.1 ((dropRepeated_sublist _).subset member)

/-- What is left is at each place the first segment that stood there. -/
theorem mem_inOrder_iff {segments : List Segment} {segment : Segment} :
    segment ∈ inOrder segments ↔ firstAt? segments segment.generated = some segment := by
  rw [← firstAt?_inOrder]
  have distinct := Segment.nodup_of_pairwise_before (pairwise_before_inOrder segments)
  exact ⟨firstAt?_of_nodup distinct, fun first => (of_firstAt? first).1⟩

/-- Segments of different places are all left. -/
theorem mem_inOrder_of_nodup {segments : List Segment}
    (distinct : (segments.map Segment.generated).Nodup) (segment : Segment) :
    segment ∈ inOrder segments ↔ segment ∈ segments :=
  ⟨mem_of_mem_inOrder, fun member => mem_inOrder_iff.2 (firstAt?_of_nodup distinct member)⟩

/-- Of the segments put in order a place is governed by the first of those that stand closest to it. -/
theorem governs_inOrder {segments : List Segment} {base : Segment} {place : Position}
    (first : firstAt? segments base.generated = some base) (reaches : base.Reaches place)
    (greatest : ∀ other ∈ segments, other.Reaches place →
      other.generated.column ≤ base.generated.column) :
    Governs (inOrder segments) base place := by
  refine ⟨mem_inOrder_iff.2 first, reaches, ?_⟩
  intro other member other_reaches
  rcases Nat.lt_or_eq_of_le (greatest other (mem_of_mem_inOrder member) other_reaches) with
    further | same_column
  · exact .inr further
  · have same : other.generated = base.generated :=
      Position.eq_iff.2 ⟨other_reaches.1.trans reaches.1.symm, same_column⟩
    have other_first := mem_inOrder_iff.1 member
    rw [same, first] at other_first
    exact .inl (Option.some.inj other_first).symm

end SourceMap
end Shakedown
