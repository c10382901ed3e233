import Shakedown.Proofs.Edit.CommaList
import Shakedown.Text.Basic

/-!
# What the cuts of a comma list leave

The cuts are read against the text of the list: what stands at the offsets that no cut holds is the text
before the first element, the kept elements with one of the original gaps between any two neighbours, and
the text behind the last element.
-/

namespace Shakedown

namespace Span

/-- The offsets of a range, in order. -/
def offsets (span : Span) : List Nat :=
  List.range' span.start (span.stop - span.start)

theorem mem_offsets {span : Span} {offset : Nat} : offset ∈ span.offsets ↔ span.holds offset := by
  rw [offsets, List.mem_range'_1, holds_iff]
  omega

/-- The offsets of a range that is taken apart. -/
theorem offsets_append {first middle last : Nat} (before : first ≤ middle) (behind : middle ≤ last) :
    offsets ⟨first, last⟩ = offsets ⟨first, middle⟩ ++ offsets ⟨middle, last⟩ := by
  have length_eq : last - first = (middle - first) + (last - middle) := by omega
  have start_eq : middle = first + (middle - first) := by omega
  simp only [offsets]
  rw [length_eq, ← List.range'_append_1, ← start_eq]

end Span

namespace CommaList

open Span

/-! ## What is left of a list -/

section Left

variable {α : Type}

/-- What a text, given by the units that offsets count, holds at the offsets of a range. -/
def part (text : List α) (span : Span) : List α :=
  span.offsets.filterMap (text[·]?)

/-- The offsets of a range that no cut holds. -/
def uncut (cuts : List Span) (span : Span) : List Nat :=
  span.offsets.filter fun offset => !cuts.any (·.holds offset)

/-- What a text holds at the offsets of a range when the cuts are taken out. -/
def remainder (text : List α) (cuts : List Span) (span : Span) : List α :=
  (uncut cuts span).filterMap (text[·]?)

/-- The kept elements, each with the gap behind it, which ends where the next element of the list
begins, kept or not. The gap behind the last element ends at `last`. -/
def keptWithGaps (last : Nat) : List (Span × Bool) → List (Span × Span)
  | [] => []
  | (item, removed) :: rest =>
      let gap : Span := ⟨item.stop, (rest.head?.map (·.1.start)).getD last⟩
      if removed then keptWithGaps last rest else (item, gap) :: keptWithGaps last rest

/-- Elements one behind the other, with the gap behind the first of two neighbours between them. -/
def separated : List (Span × Span) → List Span
  | [] => []
  | [(item, _)] => [item]
  | (item, gap) :: next :: rest => item :: gap :: separated (next :: rest)

/-- What should be left between `inner`: the text before the first element, the kept elements with a gap
between any two neighbours, and the text behind the last element. -/
def keptRanges (items : List (Span × Bool)) (inner : Span) : List Span :=
  let lead : Span := ⟨inner.start, (items.head?.map (·.1.start)).getD inner.stop⟩
  let tail : Span := ⟨(items.getLast?.map (·.1.stop)).getD inner.start, inner.stop⟩
  lead :: (separated (keptWithGaps inner.stop items) ++ [tail])

/-- What cuts have to do for a list to stay well formed without its removed elements. -/
structure LeavesList (text : List α) (items : List (Span × Bool)) (inner : Span)
    (cuts : List Span) : Prop where
  /-- Every cut is a range inside the list. -/
  within : ∀ cut ∈ cuts, inner.covers cut ∧ cut.start ≤ cut.stop
  /-- The cuts follow each other. -/
  ordered : cuts.Pairwise fun cut other => cut.stop ≤ other.start
  /-- When all elements are removed, the list is cut as a whole. -/
  emptied : (∀ item ∈ items, item.2 = true) → cuts = [inner]
  /-- When an element is kept, the kept elements are left with the original gaps between them. -/
  kept : (∃ item ∈ items, item.2 = false) →
    remainder text cuts inner = (keptRanges items inner).flatMap (part text)

end Left

/-! ## Offsets that no cut holds -/

section Uncut

variable {cut : Span} {cuts : List Span} {span : Span}

theorem uncut_append {first middle last : Nat} (before : first ≤ middle) (behind : middle ≤ last) :
    uncut cuts ⟨first, last⟩ = uncut cuts ⟨first, middle⟩ ++ uncut cuts ⟨middle, last⟩ := by
  rw [uncut, offsets_append before behind, List.filter_append]
  rfl

theorem uncut_nil : uncut [] span = span.offsets := by
  simp [uncut]

/-- A cut that is apart from the range makes no difference. -/
theorem uncut_cons_of_isApart (apart : cut.isApart span) :
    uncut (cut :: cuts) span = uncut cuts span := by
  apply List.filter_congr
  intro offset member
  have held := mem_offsets.1 member
  have outside : cut.holds offset = false := by
    cases holds_eq : cut.holds offset with
    | false => rfl
    | true => exact absurd apart (not_isApart_of_holds holds_eq held)
  rw [List.any_cons, outside, Bool.false_or]

theorem uncut_of_isApart (apart : ∀ cut ∈ cuts, cut.isApart span) : uncut cuts span = span.offsets := by
  induction cuts with
  | nil => exact uncut_nil
  | cons cut cuts ih =>
      obtain ⟨first, others⟩ := List.forall_mem_cons.1 apart
      rw [uncut_cons_of_isApart first, ih others]

/-- Nothing is left of a range that lies in a cut. -/
theorem uncut_cons_of_covers (inside : cut.covers span) : uncut (cut :: cuts) span = [] := by
  apply List.filter_eq_nil_iff.2
  intro offset member
  have held := holds_of_covers inside (mem_offsets.1 member)
  simp [held]

end Uncut

/-! ## Runs of removed elements -/

/-- What is left behind the last kept element, given the open run and the elements behind it. When one of
these is kept, it is the gap in front of them, what is kept of them, and the end; else it is the end
only. -/
def leftBehind (keptStop last : Nat) (run : Option Span) (items : List (Span × Bool)) : List Span :=
  let spans := run.toList ++ items.map (·.1)
  let tail : Span := ⟨(spans.getLast?.map (·.stop)).getD keptStop, last⟩
  if (keptWithGaps last items).isEmpty then [tail]
  else
    ⟨keptStop, (spans.head?.map (·.start)).getD last⟩ ::
      (separated (keptWithGaps last items) ++ [tail])

section Runs

variable {keptStop last : Nat} {item run : Span} {items : List (Span × Bool)}

/-- A kept element stays behind the gap in front of it, or in front of the run before it. -/
theorem leftBehind_cons_kept (open_run : Option Span) :
    leftBehind keptStop last open_run ((item, false) :: items) =
      ⟨keptStop, (open_run.map (·.start)).getD item.start⟩ :: item ::
        leftBehind item.stop last none items := by
  have stop_eq : ((open_run.toList ++ item :: items.map (·.1)).getLast?.map (·.stop)).getD keptStop =
      ((items.map (·.1)).getLast?.map (·.stop)).getD item.stop := by
    rw [List.getLast?_append, List.getLast?_cons, Option.some_or]
    cases (items.map (·.1)).getLast? <;> rfl
  have start_eq : ((open_run.toList ++ item :: items.map (·.1)).head?.map (·.start)).getD last =
      (open_run.map (·.start)).getD item.start := by
    cases open_run <;> rfl
  simp only [leftBehind, List.map_cons, keptWithGaps, Option.toList_none, List.nil_append, stop_eq,
    start_eq, List.head?_map, Option.map_map]
  cases kept_eq : keptWithGaps last items with
  | nil => simp [separated]
  | cons next others => simp [separated, Function.comp_def]

/-- A removed element opens a run. -/
theorem leftBehind_cons_removed :
    leftBehind keptStop last none ((item, true) :: items) =
      leftBehind keptStop last (some item) items := rfl

/-- A removed element behind a run belongs to it. -/
theorem leftBehind_cons_run :
    leftBehind keptStop last (some run) ((item, true) :: items) =
      leftBehind keptStop last (some ⟨run.start, item.stop⟩) items := by
  have stop_eq : ((item :: items.map (·.1)).getLast?.map (·.stop)).getD keptStop =
      ((⟨run.start, item.stop⟩ :: items.map (·.1) : List Span).getLast?.map (·.stop)).getD keptStop := by
    rw [List.getLast?_cons, List.getLast?_cons]
    cases (items.map (·.1)).getLast? <;> rfl
  simp [leftBehind, keptWithGaps, stop_eq]

/-- What the cuts of an open run and of the elements behind it leave. -/
theorem uncut_runCuts {open_run : Option Span}
    (chained : Chained keptStop last (open_run.toList ++ items.map (·.1))) :
    uncut (runCuts keptStop open_run items) ⟨keptStop, last⟩ =
      (leftBehind keptStop last open_run items).flatMap offsets := by
  fun_induction runCuts keptStop open_run items with
  | case1 keptStop => simp [uncut_nil, leftBehind, keptWithGaps]
  | case2 keptStop run =>
      obtain ⟨before, proper, behind⟩ := chained
      have stop_le : keptStop ≤ run.stop := Nat.le_trans before proper
      have apart : (⟨keptStop, run.stop⟩ : Span).isApart ⟨run.stop, last⟩ := isApart_of_le (Nat.le_refl _)
      rw [uncut_append stop_le behind, uncut_cons_of_covers (covers_refl _),
        uncut_cons_of_isApart apart, uncut_nil]
      simp [leftBehind, keptWithGaps]
  | case3 keptStop item rest ih =>
      obtain ⟨before, proper, chained⟩ := chained
      have later := (@fits_runCuts _ _ none _ chained).within
      have gap_apart : ∀ cut ∈ runCuts item.stop none rest, cut.isApart ⟨keptStop, item.start⟩ :=
        fun cut member => isApart_iff.2 (.inr (Nat.le_trans proper (later cut member).1))
      have item_apart : ∀ cut ∈ runCuts item.stop none rest, cut.isApart item :=
        fun cut member => isApart_iff.2 (.inr (later cut member).1)
      have stop_le := chained.le
      rw [uncut_append before (Nat.le_trans proper stop_le), uncut_append proper stop_le, ih chained,
        uncut_of_isApart gap_apart, uncut_of_isApart item_apart, leftBehind_cons_kept]
      rfl
  | case4 keptStop run item rest ih =>
      obtain ⟨before, run_proper, between, proper, chained⟩ := chained
      have later := (@fits_runCuts _ _ none _ chained).within
      have stop_le := chained.le
      have run_le : run.start ≤ item.start := Nat.le_trans run_proper between
      have start_le : item.start ≤ last := Nat.le_trans proper stop_le
      have gap_apart : ∀ cut ∈ (⟨run.start, item.start⟩ : Span) :: runCuts item.stop none rest,
          cut.isApart ⟨keptStop, run.start⟩ := by
        intro cut member
        obtain rfl | member := List.mem_cons.1 member
        · exact isApart_iff.2 (.inr (Nat.le_refl _))
        · exact isApart_iff.2 (.inr (Nat.le_trans run_le (Nat.le_trans proper (later cut member).1)))
      have item_apart : ∀ cut ∈ (⟨run.start, item.start⟩ : Span) :: runCuts item.stop none rest,
          cut.isApart item := by
        intro cut member
        obtain rfl | member := List.mem_cons.1 member
        · exact isApart_of_le (Nat.le_refl _)
        · exact isApart_iff.2 (.inr (later cut member).1)
      have run_apart : (⟨run.start, item.start⟩ : Span).isApart ⟨item.stop, last⟩ := isApart_of_le proper
      rw [uncut_append before (Nat.le_trans run_le start_le), uncut_append run_le start_le,
        uncut_append proper stop_le, uncut_of_isApart gap_apart, uncut_cons_of_covers (covers_refl _),
        uncut_of_isApart item_apart, uncut_cons_of_isApart run_apart, ih chained, leftBehind_cons_kept]
      rfl
  | case5 keptStop item rest ih =>
      rw [leftBehind_cons_removed]
      exact ih chained
  | case6 keptStop run item rest ih =>
      obtain ⟨before, run_proper, between, proper, chained⟩ := chained
      rw [leftBehind_cons_run]
      exact ih ⟨before, Nat.le_trans run_proper (Nat.le_trans between proper), chained⟩

end Runs

/-! ## The list -/

theorem keptWithGaps_ne_nil {last : Nat} {items : List (Span × Bool)}
    (kept : ∃ item ∈ items, item.2 = false) : keptWithGaps last items ≠ [] := by
  induction items with
  | nil => simp at kept
  | cons item rest ih =>
      obtain ⟨span, removed⟩ := item
      cases removed with
      | false => simp [keptWithGaps]
      | true => exact ih (by simpa using kept)

/-- Taking marked elements out of a list between its brackets leaves a list that is well formed: every
two kept neighbours keep exactly one of the original gaps between them. -/
theorem leavesList_cuts {items : List (Span × Bool)} {inner : Span} (text : String)
    (filled : items ≠ []) (proper : ∀ item ∈ items, item.1.isProper)
    (inside : ∀ item ∈ items, inner.covers item.1)
    (ordered : items.Pairwise fun item other => item.1.stop ≤ other.1.start) :
    LeavesList (Text.bytes text) items inner (cuts items inner) := by
  have chained : Chained inner.start inner.stop (items.map (·.1)) := by
    have bounds : ∀ item ∈ items,
        inner.start ≤ item.1.start ∧ item.1.start ≤ item.1.stop ∧ item.1.stop ≤ inner.stop := by
      intro item member
      have := covers_iff.1 (inside item member)
      have := isProper_iff.1 (proper item member)
      omega
    obtain ⟨item, member⟩ := List.exists_mem_of_ne_nil items filled
    obtain ⟨start_le, item_proper, le_stop⟩ := bounds item member
    apply chained_of_pairwise (Nat.le_trans start_le (Nat.le_trans item_proper le_stop))
    · exact List.forall_mem_map.2 bounds
    · exact List.pairwise_map.2 ordered
  have fits := fits_cuts chained
  constructor
  case within =>
    intro cut member
    obtain ⟨start_le, cut_proper, le_stop⟩ := fits.within cut member
    exact ⟨covers_iff.2 ⟨start_le, le_stop⟩, cut_proper⟩
  case ordered => exact fits.ordered
  case emptied =>
    intro all_removed
    have marked : (!items.isEmpty && items.all (·.2)) = true := by
      rw [Bool.and_eq_true, List.all_eq_true]
      exact ⟨by simpa using filled, all_removed⟩
    rw [cuts, if_pos marked]
  case kept =>
    intro kept
    have not_all : ¬(!items.isEmpty && items.all (·.2)) = true := by
      obtain ⟨item, member, unmarked⟩ := kept
      rw [Bool.and_eq_true, List.all_eq_true]
      exact fun all_marked => Bool.false_ne_true (unmarked.symm.trans (all_marked.2 item member))
    have ranges_eq : leftBehind inner.start inner.stop none items = keptRanges items inner := by
      have some_kept : (keptWithGaps inner.stop items).isEmpty = false := by
        simpa using keptWithGaps_ne_nil kept
      simp [leftBehind, keptRanges, some_kept, Function.comp_def]
    have left_eq := @uncut_runCuts _ _ _ none chained
    rw [cuts, if_neg not_all, remainder, left_eq, ranges_eq, List.filterMap_flatMap]
    rfl

/-- A list of three elements, the first and the last of which are removed. -/
def middleKept : List (Span × Bool) :=
  [(⟨2, 3⟩, true), (⟨5, 6⟩, false), (⟨8, 9⟩, true)]

/-- The list is left with its middle element and the text at its ends. -/
theorem leavesList_cuts_middleKept :
    middleKept ≠ [] ∧ (∀ item ∈ middleKept, item.1.isProper) ∧
      (∀ item ∈ middleKept, (⟨1, 10⟩ : Span).covers item.1) ∧
      (middleKept.Pairwise fun item other => item.1.stop ≤ other.1.start) ∧
      LeavesList (Text.bytes "[ a, b, c ]") middleKept ⟨1, 10⟩ (cuts middleKept ⟨1, 10⟩) := by
  refine ⟨by decide, by decide, by decide, by decide, ?_⟩
  exact leavesList_cuts _ (by decide) (by decide) (by decide) (by decide)

end CommaList
end Shakedown
