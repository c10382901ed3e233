import Shakedown.Proofs.Edit.Cuts
import Shakedown.Proofs.Edit.Rendering

/-!
# Where a range of the text occurs

Tidy edits leave a range where it was when no move takes any of it along and what is left out around
it lies apart or inside; and they take the body of a move to one place only. Either way the range
occurs once, with the edits inside it made.
-/

namespace Shakedown
namespace Meaning

open Text

variable {source : List Char} {edits : List Edit} {span : Span}

/-- The result has the range in its place, with the edits inside it made, and nowhere else. -/
structure StaysOnce (source : List Char) (edits : List Edit) (span : Span) (result : List Char) :
    Prop where
  /-- What stands before the range comes before it, and what stands behind it comes behind. -/
  result_eq : ∃ front part back, source = front ++ part ++ back ∧
    width front = span.start ∧ width (front ++ part) = span.stop ∧
    result = read (gaps edits) (put source edits) 0 front ++ bodyText source edits span ++
      (read (gaps edits) (put source edits) span.stop back ++ put source edits (width source))
  /-- No move takes anything of the range along. -/
  alone : ∀ body removed target suffix, .move body removed target suffix ∈ edits →
    body.isApart span

/-- The result has nothing at the place of the range, and the body of its one move in front of the
character at the target, with the edits inside the body made. -/
structure MovesOnce (source : List Char) (edits : List Edit) (span body : Span) (target : Nat)
    (result : List Char) : Prop where
  /-- The body comes in front of the character, among what else arrives there. -/
  result_eq : ∃ front char back earlier removed suffix later, source = front ++ char :: back ∧
    width front = target ∧ edits = earlier ++ .move body removed target suffix :: later ∧
    removed.covers span ∧
    (∀ other gap place rest, .move other gap place rest ∈ earlier ++ later →
      other.isApart span) ∧
    result = read (gaps edits) (put source edits) 0 front ++
      (earlier.flatMap (contribution source edits target) ++
        (bodyText source edits body ++ suffix.toList) ++
        later.flatMap (contribution source edits target)) ++
      char :: (read (gaps edits) (put source edits) (target + char.utf8Size) back ++
        put source edits (width source))
  /-- Every character of the range is left out of its place. -/
  gone : ∀ offset, span.holds offset → (gaps edits).any (·.holds offset)

/-! ## Ranges that stay -/

/-- Reading depends on the offsets in the text only. -/
theorem read_congr {gaps others : List Span} {put other : Nat → List Char} {offset : Nat}
    {text : List Char}
    (same : ∀ inner, offset ≤ inner → inner < offset + width text →
      gaps.any (·.holds inner) = others.any (·.holds inner) ∧ put inner = other inner) :
    read gaps put offset text = read others other offset text := by
  induction text generalizing offset with
  | nil => rfl
  | cons char rest ih =>
      have wide := char.utf8Size_pos
      rw [width_cons] at same
      obtain ⟨same_gap, same_put⟩ := same offset (Nat.le_refl _) (by omega)
      rw [read, read, same_gap, same_put,
        ih fun inner after before => same inner (by omega) (by omega)]

/-- Nothing near the range is left out but what is removed inside it. -/
structure IsClear (edits : List Edit) (span : Span) : Prop where
  /-- What is left out is apart or removed inside. -/
  gaps : ∀ gap ∈ gaps edits, gap.isApart span ∨ gap ∈ removals edits span
  /-- What moves is apart and does not arrive inside. -/
  moves : ∀ body removed target suffix, .move body removed target suffix ∈ edits →
    removed.isApart span ∧ span.holds target = false

namespace IsClear

variable {offset : Nat}

theorem any_gaps (clear : IsClear edits span) {test : Span → Bool}
    (near : ∀ gap, test gap → gap.holds offset) (held : span.holds offset) :
    (Meaning.gaps edits).any test = (removals edits span).any test := by
  rw [Bool.eq_iff_iff, List.any_eq_true, List.any_eq_true]
  constructor
  · rintro ⟨gap, member, passes⟩
    obtain apart | inside := clear.gaps gap member
    · exact absurd apart (Span.not_isApart_of_holds (near gap passes) held)
    · exact ⟨gap, inside, passes⟩
  · rintro ⟨gap, member, passes⟩
    exact ⟨gap, mem_gaps_of_mem_removals member, passes⟩

theorem put_eq (clear : IsClear edits span) (tidy : Tidy source edits)
    (held : span.holds offset) : put source edits offset = putInside edits span offset := by
  have same_surround : (Meaning.gaps edits).any (·.surrounds offset) =
      (removals edits span).any (·.surrounds offset) :=
    clear.any_gaps (fun _ => Span.holds_of_surrounds) held
  have none_along : edits.any (Edit.takesAlong offset) = false := by
    rw [List.any_eq_false]
    intro edit member along
    cases edit with
    | insert | remove => contradiction
    | move body removed target suffix =>
        obtain ⟨body_proper, inside⟩ := tidy.bodies _ _ _ _ member
        simp only [Edit.takesAlong, Bool.and_eq_true, beq_iff_eq] at along
        have removed_held : removed.holds offset :=
          Span.holds_of_covers inside (along.2 ▸ Span.holds_start body_proper)
        exact Span.not_isApart_of_holds removed_held held (clear.moves _ _ _ _ member).1
  have stays_eq : stays edits offset = !(removals edits span).any (·.surrounds offset) := by
    rw [stays, same_surround, none_along, Bool.not_false, Bool.and_true]
  have elsewhere : ∀ body removed target suffix, .move body removed target suffix ∈ edits →
      target ≠ offset := by
    rintro body removed _ suffix member rfl
    exact Bool.false_ne_true ((clear.moves _ _ _ _ member).2.symm.trans held)
  rw [putInside]
  split
  · rename_i surrounded
    exact put_eq_nil (by rw [stays_eq, surrounded, Bool.not_true]) elsewhere
  · rename_i free
    rw [put, inserted, List.flatMap_def, List.flatMap_def]
    refine congrArg List.flatten (List.map_congr_left fun edit member => ?_)
    cases edit with
    | insert position text => simp [contribution, stays_eq, free]
    | remove => rfl
    | move body removed target suffix =>
        simp [contribution, elsewhere body removed target suffix member]

theorem staysOnce (clear : IsClear edits span) (tidy : Tidy source edits)
    (begins : IsBoundary source span.start) (ends : IsBoundary source span.stop)
    (ordered : span.start ≤ span.stop) : StaysOnce source edits span (Meaning.text source edits) where
  result_eq := by
    obtain ⟨part, part_eq⟩ := exists_slice? begins ends ordered
    obtain ⟨front, back, source_eq, front_width, part_width⟩ := slice?_eq_some_iff.1 part_eq
    have body_eq : read (Meaning.gaps edits) (put source edits) span.start part =
        bodyText source edits span := by
      rw [bodyText, part_eq, Option.getD_some]
      refine read_congr fun inner after before => ?_
      have held : span.holds inner := Span.holds_iff.2 (by omega)
      exact ⟨clear.any_gaps (fun _ => id) held, clear.put_eq tidy held⟩
    refine ⟨front, part, back, by rw [source_eq, List.append_assoc], front_width,
      by rw [width_append, front_width, part_width], ?_⟩
    rw [text, ← body_eq]
    generalize put source edits = placed
    rw [source_eq, read_append, read_append, Nat.zero_add, front_width, part_width]
    simp only [List.append_assoc]
  alone := by
    intro body removed target suffix member
    obtain ⟨-, inside⟩ := tidy.bodies _ _ _ _ member
    have apart := (clear.moves _ _ _ _ member).1
    rw [Span.isApart_comm] at apart ⊢
    exact Span.isApart_of_covers apart inside

end IsClear

/-! ## Ranges that move -/

/-- Of moves that are apart only one takes a range along that it leaves out. -/
theorem Tidy.apart_of_move (tidy : Tidy source edits) {earlier later : List Edit}
    {body removed : Span} {target : Nat} {suffix : String}
    (edits_eq : edits = earlier ++ .move body removed target suffix :: later)
    (inside : removed.covers span) {other gap : Span} {place : Nat} {rest : String}
    (member : .move other gap place rest ∈ earlier ++ later) : other.isApart span := by
  have listed : .move other gap place rest ∈ edits := by
    rw [edits_eq]
    exact List.mem_append.2 ((List.mem_append.1 member).imp_right (List.mem_cons_of_mem _))
  have gap_covers : gap.covers other := (tidy.bodies _ _ _ _ listed).2
  have apart : gap.isApart removed := by
    have ordered := tidy.movesApart
    rw [edits_eq, List.filterMap_append, List.filterMap_cons, Edit.removed?,
      List.pairwise_append, List.pairwise_cons] at ordered
    obtain ⟨-, ⟨behind, -⟩, across⟩ := ordered
    obtain before | after := List.mem_append.1 member
    · exact across gap (List.mem_filterMap.2 ⟨_, before, rfl⟩) removed List.mem_cons_self
    · rw [Span.isApart_comm]
      exact behind gap (List.mem_filterMap.2 ⟨_, after, rfl⟩)
  have body_apart : other.isApart removed := by
    rw [Span.isApart_comm] at apart ⊢
    exact Span.isApart_of_covers apart gap_covers
  exact Span.isApart_of_covers body_apart inside

theorem Tidy.movesOnce (tidy : Tidy source edits) {body removed : Span} {target : Nat}
    {suffix : String} (member : .move body removed target suffix ∈ edits)
    (inside : removed.covers span) {front back : List Char} {char : Char}
    (source_eq : source = front ++ char :: back) (front_width : width front = target) :
    MovesOnce source edits span body target (text source edits) where
  result_eq := by
    obtain ⟨earlier, later, edits_eq⟩ := List.append_of_mem member
    refine ⟨front, char, back, earlier, removed, suffix, later, source_eq, front_width, edits_eq,
      inside, fun _ _ _ _ => tidy.apart_of_move edits_eq inside, ?_⟩
    have put_eq : put source edits target =
        earlier.flatMap (contribution source edits target) ++
          (bodyText source edits body ++ suffix.toList) ++
          later.flatMap (contribution source edits target) := by
      have arrives : contribution source edits target (.move body removed target suffix) =
          bodyText source edits body ++ suffix.toList := if_pos rfl
      have flat_eq (part : Edit → List Char) : edits.flatMap part =
          earlier.flatMap part ++ part (.move body removed target suffix) ++ later.flatMap part := by
        rw [edits_eq, List.flatMap_append, List.flatMap_cons, List.append_assoc]
      rw [put, flat_eq, arrives]
    have free : (gaps edits).any (·.holds target) = false := by
      rw [List.any_eq_false]
      intro gap gap_mem
      rw [tidy.targets _ _ _ _ member gap gap_mem]
      exact Bool.false_ne_true
    rw [text, ← put_eq]
    generalize put source edits = placed
    rw [source_eq, read_append, Nat.zero_add, front_width, read, free]
    simp
  gone := by
    intro offset held
    have removed_held : removed.holds offset := Span.holds_of_covers inside held
    have gap_mem : removed ∈ gaps edits :=
      mem_gaps_iff.2 ⟨⟨_, member, rfl⟩, Span.isProper_of_holds removed_held⟩
    exact List.any_eq_true.2 ⟨removed, gap_mem, removed_held⟩

end Meaning
end Shakedown
