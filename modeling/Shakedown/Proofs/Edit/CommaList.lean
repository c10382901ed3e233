import Shakedown.Proofs.Edit.Cuts

/-!
# What the cuts of a comma list take

However removed and kept elements alternate, every removed element lies in one of the cuts, and no cut
touches an element that stays.
-/

namespace Shakedown
namespace CommaList

open Span

/-- The cuts take the marked elements and keep apart from all others. -/
structure Separates (items : List (Span × Bool)) (cuts : List Span) : Prop where
  /-- A removed element lies in a cut. -/
  removed : ∀ item ∈ items, item.2 = true → ∃ cut ∈ cuts, cut.covers item.1
  /-- A kept element is apart from every cut. -/
  kept : ∀ item ∈ items, item.2 = false → ∀ cut ∈ cuts, cut.isApart item.1

namespace Separates

variable {items : List (Span × Bool)} {cuts : List Span} {item element run : Span} {last : Nat}

/-- A kept element that all cuts are behind. -/
theorem cons_kept (separates : Separates items cuts)
    (behind : ∀ cut ∈ cuts, item.stop ≤ cut.start) : Separates ((item, false) :: items) cuts where
  removed := by
    intro other member marked
    obtain rfl | member := List.mem_cons.1 member
    · contradiction
    · exact separates.removed other member marked
  kept := by
    intro other member unmarked cut among
    obtain rfl | member := List.mem_cons.1 member
    · exact isApart_iff.2 (.inr (behind cut among))
    · exact separates.kept other member unmarked cut among

/-- A run of removed elements, cut up to the kept element behind it. -/
theorem cons_cut (separates : Separates ((item, false) :: items) cuts)
    (run_ordered : run.stop ≤ item.start)
    (behind : ∀ other ∈ items, item.start ≤ other.1.start) :
    Separates ((run, true) :: (item, false) :: items) (⟨run.start, item.start⟩ :: cuts) where
  removed := by
    intro other member marked
    obtain rfl | member := List.mem_cons.1 member
    · exact ⟨_, List.mem_cons_self, covers_iff.2 ⟨Nat.le_refl _, run_ordered⟩⟩
    · obtain ⟨cut, among, inside⟩ := separates.removed other member marked
      exact ⟨cut, List.mem_cons_of_mem _ among, inside⟩
  kept := by
    intro other member unmarked cut among
    obtain rfl | member := List.mem_cons.1 member
    · contradiction
    obtain rfl | among := List.mem_cons.1 among
    · obtain rfl | member := List.mem_cons.1 member
      · exact isApart_of_le (Nat.le_refl _)
      · exact isApart_of_le (behind other member)
    · exact separates.kept other member unmarked cut among

/-- A run and the removed element behind it, taken as one. -/
theorem split_run (separates : Separates ((⟨run.start, element.stop⟩, true) :: items) cuts)
    (run_proper : run.start ≤ run.stop) (ordered : run.stop ≤ element.start)
    (proper : element.start ≤ element.stop) :
    Separates ((run, true) :: (element, true) :: items) cuts := by
  obtain ⟨cut, among, inside⟩ := separates.removed _ List.mem_cons_self rfl
  obtain ⟨start_le, le_stop⟩ := covers_iff.1 inside
  have covers_run : cut.covers run :=
    covers_iff.2 ⟨start_le, Nat.le_trans (Nat.le_trans ordered proper) le_stop⟩
  have covers_element : cut.covers element :=
    covers_iff.2 ⟨Nat.le_trans start_le (Nat.le_trans run_proper ordered), le_stop⟩
  constructor
  case removed =>
    intro other member marked
    obtain rfl | member := List.mem_cons.1 member
    · exact ⟨cut, among, covers_run⟩
    obtain rfl | member := List.mem_cons.1 member
    · exact ⟨cut, among, covers_element⟩
    · exact separates.removed other (List.mem_cons_of_mem _ member) marked
  case kept =>
    intro other member unmarked
    obtain rfl | member := List.mem_cons.1 member
    · contradiction
    obtain rfl | member := List.mem_cons.1 member
    · contradiction
    · exact separates.kept other (List.mem_cons_of_mem _ member) unmarked

end Separates

/-- The cuts of an open run and of the elements behind it, the run counted as a removed element. -/
theorem separates_runCuts {first last : Nat} {run : Option Span} {items : List (Span × Bool)}
    (chained : Chained first last (run.toList ++ items.map (·.1))) :
    Separates (run.toList.map (·, true) ++ items) (runCuts first run items) := by
  fun_induction runCuts first run items with
  | case1 first => exact ⟨by simp, by simp⟩
  | case2 first run =>
      have inside : (⟨first, run.stop⟩ : Span).covers run :=
        covers_iff.2 ⟨chained.1, Nat.le_refl _⟩
      exact ⟨by simpa using inside, by simp⟩
  | case3 first item rest ih =>
      obtain ⟨-, -, behind⟩ := chained
      apply (ih behind).cons_kept
      exact fun cut among => ((fits_runCuts behind).within cut among).1
  | case4 first run item rest ih =>
      obtain ⟨-, -, ordered, proper, behind⟩ := chained
      have further := (ih behind).cons_kept fun cut among => ((fits_runCuts behind).within cut among).1
      apply further.cons_cut ordered
      intro other member
      exact Nat.le_trans proper (behind.within (List.mem_map_of_mem member)).1
  | case5 first item rest ih => exact ih chained
  | case6 first run item rest ih =>
      obtain ⟨first_le, run_proper, ordered, proper, behind⟩ := chained
      have merged : Chained first last (⟨run.start, item.stop⟩ :: rest.map (·.1)) :=
        ⟨first_le, Nat.le_trans run_proper (Nat.le_trans ordered proper), behind⟩
      exact (ih merged).split_run run_proper ordered proper

/-- The cuts of a list of elements between its brackets. -/
theorem separates_cuts {items : List (Span × Bool)} {inner : Span}
    (chained : Chained inner.start inner.stop (items.map (·.1))) :
    Separates items (cuts items inner) := by
  rw [cuts]
  split
  · rename_i all_marked
    rw [Bool.and_eq_true, List.all_eq_true] at all_marked
    constructor
    case removed =>
      intro item member _
      exact ⟨inner, List.mem_singleton_self _,
        covers_iff.2 (chained.within (List.mem_map_of_mem member))⟩
    case kept =>
      intro item member unmarked
      exact absurd (all_marked.2 item member) (by simp [unmarked])
  · have none_open : Chained inner.start inner.stop
        ((none : Option Span).toList ++ items.map (·.1)) := chained
    exact separates_runCuts none_open

end CommaList
end Shakedown
