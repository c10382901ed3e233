import Shakedown.Edit.CommaList
import Shakedown.Proofs.Edit.Meaning

/-!
# Cuts that get along

Cuts do no harm to each other when no two of them straddle: they are apart or one lies inside the
other. The cuts of a comma list follow each other between the brackets, and each of them takes an
element as a whole or not at all. So they get along with whatever is cut inside the elements.
-/

namespace Shakedown

namespace Span

/-- Whether the ranges are apart or one of them lies inside the other. -/
def nests (first second : Span) : Bool :=
  first.isApart second || first.covers second || second.covers first

theorem nests_iff {first second : Span} :
    first.nests second ↔ first.isApart second ∨ first.covers second ∨ second.covers first := by
  simp [nests, or_assoc]

theorem nests_comm (first second : Span) : first.nests second = second.nests first := by
  rw [Bool.eq_iff_iff, nests_iff, nests_iff, isApart_comm, or_comm (a := first.covers second)]

theorem covers_refl (span : Span) : span.covers span :=
  covers_iff.2 ⟨Nat.le_refl _, Nat.le_refl _⟩

theorem nests_self (span : Span) : span.nests span :=
  nests_iff.2 (.inr (.inl span.covers_refl))

theorem nests_of_isApart {first second : Span} (apart : first.isApart second) :
    first.nests second :=
  nests_iff.2 (.inl apart)

theorem nests_of_covers {first second : Span} (outside : first.covers second) :
    first.nests second :=
  nests_iff.2 (.inr (.inl outside))

theorem isApart_of_le {first second : Span} (ordered : first.stop ≤ second.start) :
    first.isApart second :=
  isApart_iff.2 (.inl ordered)

/-- Items whose ranges follow each other are the same or have ranges that are apart. -/
theorem eq_or_isApart {Item : Type} {items : List Item} (span : Item → Span)
    (ordered : items.Pairwise fun first second => (span first).stop ≤ (span second).start)
    {first second : Item} (listed : first ∈ items) (also_listed : second ∈ items) :
    first = second ∨ (span first).isApart (span second) := by
  have forwards : items.Pairwise fun first second =>
      first = second ∨ (span first).isApart (span second) :=
    ordered.imp fun before => .inr (isApart_of_le before)
  have backwards := forwards.imp fun {first second} either =>
    either.imp Eq.symm fun apart => (isApart_comm _ _).trans apart
  exact List.Pairwise.forall_of_forall_of_flip (fun _ _ => .inl rfl) forwards backwards listed
    also_listed

/-- What is apart from a range is apart from what lies inside it. -/
theorem isApart_of_covers {first second inner : Span} (apart : first.isApart second)
    (outside : second.covers inner) : first.isApart inner := by
  rw [isApart_iff] at *
  rw [covers_iff] at outside
  omega

/-- Whether the range takes the other as a whole or nothing of it. -/
def takesWhole (span other : Span) : Bool :=
  span.covers other || span.isApart other

theorem takesWhole_iff {span other : Span} :
    span.takesWhole other ↔ span.covers other ∨ span.isApart other := by
  simp [takesWhole]

/-- A range that takes another as a whole or not at all straddles nothing inside it. -/
theorem takesWhole_of_covers {span other inner : Span} (whole : span.takesWhole other)
    (outside : other.covers inner) : span.takesWhole inner := by
  rw [takesWhole_iff] at *
  exact whole.imp (fun inside => covers_trans inside outside) fun apart =>
    isApart_of_covers apart outside

theorem nests_of_takesWhole {span other : Span} (whole : span.takesWhole other) :
    span.nests other := by
  rw [takesWhole_iff] at whole
  exact nests_iff.2 (whole.symm.imp_right .inl)

end Span

namespace CommaList

open Span

/-- Ranges that follow each other between two offsets. -/
def Chained (first last : Nat) : List Span → Prop
  | [] => first ≤ last
  | span :: rest => first ≤ span.start ∧ span.start ≤ span.stop ∧ Chained span.stop last rest

theorem Chained.le {first last : Nat} {spans : List Span} (chained : Chained first last spans) :
    first ≤ last := by
  induction spans generalizing first with
  | nil => exact chained
  | cons span rest ih =>
      obtain ⟨first_le, ordered, chained⟩ := chained
      have := ih chained
      omega

theorem Chained.within {first last : Nat} {spans : List Span} (chained : Chained first last spans)
    {span : Span} (member : span ∈ spans) : first ≤ span.start ∧ span.stop ≤ last := by
  induction spans generalizing first with
  | nil => simp at member
  | cons head rest ih =>
      obtain ⟨first_le, ordered, chained⟩ := chained
      obtain rfl | member := List.mem_cons.1 member
      · exact ⟨first_le, chained.le⟩
      · have := ih chained member
        omega

theorem chained_of_pairwise {first last : Nat} {spans : List Span} (first_le : first ≤ last)
    (within : ∀ span ∈ spans, first ≤ span.start ∧ span.start ≤ span.stop ∧ span.stop ≤ last)
    (ordered : spans.Pairwise fun span other => span.stop ≤ other.start) :
    Chained first last spans := by
  induction spans generalizing first with
  | nil => exact first_le
  | cons span rest ih =>
      obtain ⟨before, ordered⟩ := List.pairwise_cons.1 ordered
      obtain ⟨start_le, proper, stop_le⟩ := within span List.mem_cons_self
      refine ⟨start_le, proper, ih stop_le (fun other member => ?_) ordered⟩
      have := within other (List.mem_cons_of_mem _ member)
      exact ⟨before other member, this.2⟩

/-- What cuts have to do with the ranges of the elements: they follow each other, begin and end where
an element or the list does, and take elements as a whole. -/
structure Fits (first last : Nat) (elements cuts : List Span) : Prop where
  within : ∀ cut ∈ cuts, first ≤ cut.start ∧ cut.start ≤ cut.stop ∧ cut.stop ≤ last
  ordered : cuts.Pairwise fun cut other => cut.stop ≤ other.start
  starts : ∀ cut ∈ cuts, cut.start = first ∨ ∃ element ∈ elements,
    cut.start = element.start ∨ cut.start = element.stop
  stops : ∀ cut ∈ cuts, cut.stop = last ∨ ∃ element ∈ elements,
    cut.stop = element.start ∨ cut.stop = element.stop
  whole : ∀ cut ∈ cuts, ∀ element ∈ elements, cut.takesWhole element

namespace Fits

variable {first last : Nat} {elements cuts : List Span}

theorem nested (fits : Fits first last elements cuts) {cut other : Span} (member : cut ∈ cuts)
    (among : other ∈ cuts) : cut.nests other := by
  have forwards : cuts.Pairwise fun cut other => cut.nests other :=
    fits.ordered.imp fun ordered => nests_of_isApart (isApart_of_le ordered)
  have backwards : cuts.Pairwise (flip fun cut other => cut.nests other) :=
    forwards.imp fun {cut other} nest => (nests_comm cut other).symm.trans nest
  exact List.Pairwise.forall_of_forall_of_flip (fun cut _ => nests_self cut) forwards backwards
    member among

theorem nil : Fits first last elements [] :=
  ⟨by simp, .nil, by simp, by simp, by simp⟩

/-- An element in front that the cuts begin behind. -/
theorem skip {element : Span} (fits : Fits element.stop last elements cuts)
    (first_le : first ≤ element.start) (proper : element.start ≤ element.stop) :
    Fits first last (element :: elements) cuts where
  within := fun cut member => by
    have := fits.within cut member
    omega
  ordered := fits.ordered
  starts := fun cut member => by
    obtain same | ⟨other, among, same⟩ := fits.starts cut member
    · exact .inr ⟨element, List.mem_cons_self, .inr same⟩
    · exact .inr ⟨other, List.mem_cons_of_mem _ among, same⟩
  stops := fun cut member =>
    (fits.stops cut member).imp_right fun ⟨other, among, same⟩ =>
      ⟨other, List.mem_cons_of_mem _ among, same⟩
  whole := fun cut member => by
    have behind := fits.within cut member
    refine List.forall_mem_cons.2 ⟨?_, fits.whole cut member⟩
    exact takesWhole_iff.2 (.inr (isApart_iff.2 (.inr behind.1)))

/-- A cut in front, from the start of a run of elements to the element behind it. -/
theorem cut {run element : Span} (fits : Fits element.stop last elements cuts)
    (chained : Chained first last (run :: element :: elements)) :
    Fits first last (run :: element :: elements) (⟨run.start, element.start⟩ :: cuts) := by
  obtain ⟨first_le, run_proper, ordered, proper, chained⟩ := chained
  have le_last := chained.le
  have others := (fits.skip ordered proper).skip first_le run_proper
  refine ⟨List.forall_mem_cons.2 ⟨?_, others.within⟩, List.pairwise_cons.2 ⟨?_, others.ordered⟩,
    List.forall_mem_cons.2 ⟨?_, others.starts⟩, List.forall_mem_cons.2 ⟨?_, others.stops⟩,
    List.forall_mem_cons.2 ⟨?_, others.whole⟩⟩
  · exact ⟨first_le, Nat.le_trans run_proper ordered, Nat.le_trans proper le_last⟩
  · intro other member
    have behind := fits.within other member
    exact Nat.le_trans proper behind.1
  · exact .inr ⟨run, List.mem_cons_self, .inl rfl⟩
  · exact .inr ⟨element, by simp, .inl rfl⟩
  · intro other among
    obtain rfl | among := List.mem_cons.1 among
    · exact takesWhole_iff.2 (.inl (covers_iff.2 ⟨Nat.le_refl _, ordered⟩))
    obtain rfl | among := List.mem_cons.1 among
    · exact takesWhole_iff.2 (.inr (isApart_of_le (Nat.le_refl _)))
    · have behind := chained.within among
      exact takesWhole_iff.2 (.inr (isApart_of_le (Nat.le_trans proper behind.1)))

/-- A run and the element behind it, taken as one. -/
theorem merge {run element : Span} (fits : Fits first last (⟨run.start, element.stop⟩ :: elements) cuts)
    (run_proper : run.start ≤ run.stop) (ordered : run.stop ≤ element.start)
    (proper : element.start ≤ element.stop) : Fits first last (run :: element :: elements) cuts where
  within := fits.within
  ordered := fits.ordered
  starts := fun cut member => by
    obtain same | ⟨other, among, same⟩ := fits.starts cut member
    · exact .inl same
    obtain rfl | among := List.mem_cons.1 among
    · obtain same | same := same
      · exact .inr ⟨run, by simp, .inl same⟩
      · exact .inr ⟨element, by simp, .inr same⟩
    · exact .inr ⟨other, by simp [among], same⟩
  stops := fun cut member => by
    obtain same | ⟨other, among, same⟩ := fits.stops cut member
    · exact .inl same
    obtain rfl | among := List.mem_cons.1 among
    · obtain same | same := same
      · exact .inr ⟨run, by simp, .inl same⟩
      · exact .inr ⟨element, by simp, .inr same⟩
    · exact .inr ⟨other, by simp [among], same⟩
  whole := fun cut member => by
    obtain ⟨merged_whole, others_whole⟩ := List.forall_mem_cons.1 (fits.whole cut member)
    refine List.forall_mem_cons.2 ⟨?_, List.forall_mem_cons.2 ⟨?_, others_whole⟩⟩
    · exact takesWhole_of_covers merged_whole
        (covers_iff.2 ⟨Nat.le_refl _, Nat.le_trans ordered proper⟩)
    · exact takesWhole_of_covers merged_whole
        (covers_iff.2 ⟨Nat.le_trans run_proper ordered, Nat.le_refl _⟩)

end Fits

/-- The cuts of a run that is open and of the elements behind it. -/
theorem fits_runCuts {first last : Nat} {run : Option Span} {items : List (Span × Bool)}
    (chained : Chained first last (run.toList ++ items.map (·.1))) :
    Fits first last (run.toList ++ items.map (·.1)) (runCuts first run items) := by
  fun_induction runCuts first run items with
  | case1 first => exact .nil
  | case2 first run =>
      obtain ⟨first_le, proper, stop_le⟩ := chained
      have whole : (⟨first, run.stop⟩ : Span).takesWhole run :=
        takesWhole_iff.2 (.inl (covers_iff.2 ⟨first_le, Nat.le_refl _⟩))
      have ordered := Nat.le_trans first_le proper
      exact ⟨by simpa using ⟨ordered, stop_le⟩, List.pairwise_singleton _ _, by simp, by simp,
        by simpa using whole⟩
  | case3 first item rest ih =>
      obtain ⟨first_le, proper, chained⟩ := chained
      exact (ih chained).skip first_le proper
  | case4 first run item rest ih =>
      exact (ih chained.2.2.2.2).cut chained
  | case5 first item rest ih => exact ih chained
  | case6 first run item rest ih =>
      obtain ⟨first_le, run_proper, ordered, proper, chained⟩ := chained
      have merged : Chained first last (⟨run.start, item.stop⟩ :: rest.map (·.1)) :=
        ⟨first_le, Nat.le_trans run_proper (Nat.le_trans ordered proper), chained⟩
      exact (ih merged).merge run_proper ordered proper

/-- The cuts of a list of elements between its brackets. -/
theorem fits_cuts {items : List (Span × Bool)} {inner : Span}
    (chained : Chained inner.start inner.stop (items.map (·.1))) :
    Fits inner.start inner.stop (items.map (·.1)) (cuts items inner) := by
  rw [cuts]
  split
  · have whole : ∀ element ∈ items.map (·.1), inner.takesWhole element := fun element member =>
      takesWhole_iff.2 (.inl (covers_iff.2 (chained.within member)))
    exact ⟨by simpa using chained.le, List.pairwise_singleton _ _, by simp, by simp,
      by simpa using whole⟩
  · have none_open : Chained inner.start inner.stop
        ((none : Option Span).toList ++ items.map (·.1)) := chained
    exact fits_runCuts none_open

end CommaList

/-- Cuts inside a range that get along with each other. -/
structure Tame (text : List Char) (outer : Span) (cuts : List Span) : Prop where
  boundaries : ∀ cut ∈ cuts, Text.IsBoundary text cut.start ∧ Text.IsBoundary text cut.stop
  ordered : ∀ cut ∈ cuts, cut.start ≤ cut.stop
  within : ∀ cut ∈ cuts, outer.covers cut
  nested : ∀ cut ∈ cuts, ∀ other ∈ cuts, cut.nests other

namespace Tame

open Span

variable {text : List Char} {outer : Span} {cuts others : List Span}

theorem nil : Tame text outer [] :=
  ⟨by simp, by simp, by simp, by simp⟩

theorem of_subset (tame : Tame text outer cuts) (subset : ∀ cut ∈ others, cut ∈ cuts) :
    Tame text outer others where
  boundaries := fun cut member => tame.boundaries cut (subset cut member)
  ordered := fun cut member => tame.ordered cut (subset cut member)
  within := fun cut member => tame.within cut (subset cut member)
  nested := fun cut member other among =>
    tame.nested cut (subset cut member) other (subset other among)

theorem mono {wider : Span} (tame : Tame text outer cuts) (outside : wider.covers outer) :
    Tame text wider cuts :=
  { tame with within := fun cut member => covers_trans outside (tame.within cut member) }

theorem append (tame : Tame text outer cuts) (also_tame : Tame text outer others)
    (across : ∀ cut ∈ cuts, ∀ other ∈ others, cut.nests other) :
    Tame text outer (cuts ++ others) where
  boundaries := List.forall_mem_append.2 ⟨tame.boundaries, also_tame.boundaries⟩
  ordered := List.forall_mem_append.2 ⟨tame.ordered, also_tame.ordered⟩
  within := List.forall_mem_append.2 ⟨tame.within, also_tame.within⟩
  nested := by
    intro cut member other among
    obtain member | member := List.mem_append.1 member <;>
      obtain among | among := List.mem_append.1 among
    · exact tame.nested cut member other among
    · exact across cut member other among
    · exact nests_comm cut other ▸ across other among cut member
    · exact also_tame.nested cut member other among

/-- The range itself as one more cut. -/
theorem cons_outer (tame : Tame text outer cuts) (begins : Text.IsBoundary text outer.start)
    (ends : Text.IsBoundary text outer.stop) (proper : outer.start ≤ outer.stop) :
    Tame text outer (outer :: cuts) := by
  have alone : Tame text outer [outer] :=
    ⟨by simpa using ⟨begins, ends⟩, by simpa using proper, by simpa using covers_refl outer,
      by simpa using nests_self outer⟩
  refine alone.append tame fun cut member other among => ?_
  obtain rfl : cut = outer := by simpa using member
  exact nests_of_covers (tame.within other among)

/-- Cuts inside ranges that follow each other, unless there are none. -/
theorem flatMap {Part : Type} {parts : List Part} (range : Part → Span)
    {cutsOf : Part → List Span}
    (tame : ∀ part ∈ parts, Tame text (range part) (cutsOf part))
    (within : ∀ part ∈ parts, outer.covers (range part))
    (ordered : parts.Pairwise fun part other =>
      (range part).stop ≤ (range other).start ∨ cutsOf part = []) :
    Tame text outer (parts.flatMap cutsOf) := by
  induction parts with
  | nil => exact nil
  | cons part rest ih =>
      obtain ⟨before, ordered⟩ := List.pairwise_cons.1 ordered
      obtain ⟨part_tame, rest_tame⟩ := List.forall_mem_cons.1 tame
      obtain ⟨part_within, rest_within⟩ := List.forall_mem_cons.1 within
      rw [List.flatMap_cons]
      refine (part_tame.mono part_within).append (ih rest_tame rest_within ordered) ?_
      intro cut member other among
      obtain ⟨behind, listed, among⟩ := List.mem_flatMap.1 among
      obtain apart | empty := before behind listed
      · have cut_within := covers_iff.1 (part_tame.within cut member)
        have other_within := covers_iff.1 ((rest_tame behind listed).within other among)
        exact nests_of_isApart (isApart_of_le (by omega))
      · simp [empty] at member

end Tame
end Shakedown
