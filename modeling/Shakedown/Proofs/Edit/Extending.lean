import Mathlib.Data.List.Chain
import Shakedown.Proofs.Edit.Merge

/-!
# Chunks merged one by one

Merging can also be done while the chunks come in: a chunk that adjoins the last one so far makes
that one longer, a void one is left out, and any other is put behind. Both ways give the same list,
whose chunks are filled and whose neighbours are apart. A void chunk in between does not keep two
others from being merged.
-/

namespace Shakedown
namespace Chunk

/-- Two chunks that stay two when they are neighbours. -/
def Apart : Chunk → Chunk → Prop
  | copied left, copied right => left.stop ≠ right.start
  | synthetic _, synthetic _ => False
  | copied _, synthetic _ => True
  | synthetic _, copied _ => True

/-- Merged chunks with one more behind them. -/
def extend : List Chunk → Chunk → List Chunk
  | [], chunk => if chunk.isVoid then [] else [chunk]
  | [last], chunk =>
      match last.join? chunk with
      | some joined => [joined]
      | none => if chunk.isVoid then [last] else [last, chunk]
  | first :: second :: rest, chunk => first :: extend (second :: rest) chunk

/-! ## Joining neighbours -/

theorem join?_eq_none_iff {left right : Chunk} : left.join? right = none ↔ left.Apart right := by
  cases left <;> cases right <;> simp [join?, Apart]

@[simp]
theorem join?_copied (start stop : Nat) (right : Span) :
    (copied ⟨start, stop⟩).join? (copied right) =
      if stop = right.start then some (copied ⟨start, right.stop⟩) else none := rfl

@[simp]
theorem join?_synthetic (left right : String) :
    (synthetic left).join? (synthetic right) = some (synthetic (left ++ right)) := rfl

@[simp]
theorem join?_copied_synthetic (span : Span) (text : String) :
    (copied span).join? (synthetic text) = none := rfl

@[simp]
theorem join?_synthetic_copied (text : String) (span : Span) :
    (synthetic text).join? (copied span) = none := rfl

/-- A void chunk changes nothing of the one that it is joined to. -/
theorem eq_of_join?_isVoid {left right joined : Chunk} (void : right.isVoid)
    (join : left.join? right = some joined) : joined = left := by
  cases left with
  | copied first =>
      cases right with
      | copied second =>
          simp only [isVoid, beq_iff_eq, join?] at void join
          split at join
          · rename_i adjoining
            rw [← Option.some.inj join, ← void, ← adjoining]
          · contradiction
      | synthetic text => contradiction
  | synthetic text =>
      cases right with
      | copied second => contradiction
      | synthetic other =>
          obtain rfl : other = "" := by simpa [isVoid] using void
          simpa using (Option.some.inj join).symm

/-- It makes no difference which neighbours of three are joined first. -/
theorem join?_bind (left middle right : Chunk) :
    ((left.join? middle).bind fun joined => joined.join? right) =
      (middle.join? right).bind left.join? := by
  rcases left with ⟨start, first⟩ | text <;> rcases middle with ⟨second, third⟩ | other <;>
    rcases right with ⟨fourth, stop⟩ | last
  case copied.copied.copied =>
    by_cases one : first = second <;> by_cases two : third = fourth <;> simp [one, two]
  case copied.copied.synthetic => by_cases one : first = second <;> simp [one]
  case synthetic.copied.copied => by_cases two : third = fourth <;> simp [two]
  all_goals simp [String.append_assoc]

/-- Joining a chunk to its left neighbour does not change which right neighbours it has. -/
theorem joined_apart_iff {left middle joined : Chunk} (join : left.join? middle = some joined)
    (right : Chunk) : joined.Apart right ↔ middle.Apart right := by
  rcases left with ⟨start, first⟩ | text <;> rcases middle with ⟨second, third⟩ | other
  case copied.copied =>
    simp only [join?_copied] at join
    split at join
    · obtain rfl := Option.some.inj join
      cases right <;> rfl
    · contradiction
  case synthetic.synthetic =>
    obtain rfl := Option.some.inj join
    cases right <;> rfl
  all_goals contradiction

/-- Joining a chunk to its right neighbour does not change which left neighbours it has. -/
theorem apart_joined_iff {middle right joined : Chunk} (join : middle.join? right = some joined)
    (left : Chunk) : left.Apart joined ↔ left.Apart middle := by
  rcases middle with ⟨second, third⟩ | text <;> rcases right with ⟨fourth, stop⟩ | other
  case copied.copied =>
    simp only [join?_copied] at join
    split at join
    · obtain rfl := Option.some.inj join
      cases left <;> rfl
    · contradiction
  case synthetic.synthetic =>
    obtain rfl := Option.some.inj join
    cases left <;> rfl
  all_goals contradiction

/-! ## One more chunk -/

theorem extend_of_isVoid {chunk : Chunk} (void : chunk.isVoid) (merged : List Chunk) :
    extend merged chunk = merged := by
  fun_induction extend merged chunk with
  | case1 => rfl
  | case2 => contradiction
  | case3 chunk last joined join => rw [eq_of_join?_isVoid void join]
  | case4 => rfl
  | case5 => contradiction
  | case6 first second rest chunk ih => rw [ih void]

/-- What one more chunk does: a void one nothing, one that adjoins the last makes that one longer,
and any other comes behind. -/
theorem extend_cases (merged : List Chunk) (chunk : Chunk) :
    (chunk.isVoid ∧ extend merged chunk = merged) ∨
    (chunk.isVoid = false ∧ ∃ front last joined, merged = front ++ [last] ∧
      last.join? chunk = some joined ∧ extend merged chunk = front ++ [joined]) ∨
    (chunk.isVoid = false ∧ (∀ last ∈ merged.getLast?, last.Apart chunk) ∧
      extend merged chunk = merged ++ [chunk]) := by
  cases void : chunk.isVoid with
  | true => exact .inl ⟨rfl, extend_of_isVoid void merged⟩
  | false =>
      right
      induction merged with
      | nil => exact .inr ⟨rfl, by simp, by simp [extend, void]⟩
      | cons first rest ih =>
          cases rest with
          | nil =>
              cases join : first.join? chunk with
              | some joined =>
                  exact .inl ⟨rfl, [], first, joined, rfl, join, by simp [extend, join]⟩
              | none =>
                  refine .inr ⟨rfl, ?_, by simp [extend, join, void]⟩
                  rintro last ⟨⟩
                  exact join?_eq_none_iff.1 join
          | cons second rest =>
              rcases ih with ⟨-, front, last, joined, rest_eq, join, extended⟩ |
                  ⟨-, apart, extended⟩
              · refine .inl ⟨rfl, first :: front, last, joined, by rw [rest_eq]; rfl, join, ?_⟩
                rw [extend, extended]
                rfl
              · refine .inr ⟨rfl, by simpa using apart, ?_⟩
                rw [extend, extended]
                rfl

theorem attach_of_isVoid {chunk : Chunk} (void : chunk.isVoid) (merged : List Chunk) :
    chunk.attach merged = merged := if_pos void

theorem attach_cons {chunk : Chunk} (filled : chunk.isVoid = false) (next : Chunk)
    (rest : List Chunk) :
    chunk.attach (next :: rest) =
      match chunk.join? next with
      | some joined => joined :: rest
      | none => chunk :: next :: rest :=
  if_neg (by simp [filled])

/-- Chunks can be added on both sides in any order. -/
theorem attach_extend (first : Chunk) (merged : List Chunk) (chunk : Chunk) :
    first.attach (extend merged chunk) = extend (first.attach merged) chunk := by
  cases first_void : first.isVoid with
  | true => rw [attach_of_isVoid first_void, attach_of_isVoid first_void]
  | false =>
    cases void : chunk.isVoid with
    | true => rw [extend_of_isVoid void, extend_of_isVoid void]
    | false =>
      match merged with
      | [] =>
          have alone : first.attach [] = [first] := if_neg (by simp [first_void])
          rw [alone, extend, if_neg (by simp [void]), attach_cons first_void, extend]
          cases first.join? chunk <;> simp [void]
      | [next] =>
          have order := join?_bind first next chunk
          rw [extend, attach_cons first_void]
          cases left : first.join? next with
          | none =>
              rw [left, Option.bind_none] at order
              cases right : next.join? chunk with
              | none => simp [attach_cons first_void, left, extend, right, void]
              | some joined =>
                  rw [right, Option.bind_some] at order
                  simp [attach_cons first_void, ← order, extend, right]
          | some grown =>
              have reaches := joined_apart_iff left chunk
              rw [← join?_eq_none_iff, ← join?_eq_none_iff] at reaches
              rw [left, Option.bind_some] at order
              cases right : next.join? chunk with
              | none => simp [attach_cons first_void, left, extend, reaches.2 right, void]
              | some joined =>
                  rw [right, Option.bind_some] at order
                  cases whole : grown.join? chunk with
                  | none => exact absurd (reaches.1 whole) (by simp [right])
                  | some whole_chunk =>
                      simp [attach_cons first_void, ← order, extend, whole]
      | next :: second :: rest =>
          rw [extend, attach_cons first_void, attach_cons first_void]
          cases first.join? next with
          | none => rfl
          | some joined => rfl

/-- Merging from the left gives the same chunks as merging from the right. -/
theorem merge_concat (chunks : List Chunk) (chunk : Chunk) :
    merge (chunks ++ [chunk]) = extend (merge chunks) chunk := by
  induction chunks with
  | nil => rfl
  | cons first chunks ih =>
      calc merge (first :: chunks ++ [chunk])
          = first.attach (merge (chunks ++ [chunk])) := rfl
        _ = first.attach (extend (merge chunks) chunk) := by rw [ih]
        _ = extend (merge (first :: chunks)) chunk := attach_extend first _ chunk

theorem merge_eq_foldl (chunks : List Chunk) : merge chunks = chunks.foldl extend [] := by
  induction chunks using List.reverseRecOn with
  | nil => rfl
  | append_singleton chunks chunk ih => rw [merge_concat, List.foldl_concat, ih]

/-! ## What merged chunks are like -/

/-- The chunks are parts of the source or new text, none of them stands for nothing, and no two
neighbours could be one. -/
structure Settled (source : String) (chunks : List Chunk) : Prop where
  /-- Each chunk is valid. -/
  valid : ∀ chunk ∈ chunks, chunk.IsValid source
  /-- Each chunk stands for some text. -/
  filled : ∀ chunk ∈ chunks, chunk.text source ≠ ""
  /-- Neighbours are apart. -/
  apart : chunks.IsChain Apart

theorem text_ne_empty {source : String} {chunk : Chunk} (filled : chunk.isVoid = false)
    (valid : chunk.IsValid source) : chunk.text source ≠ "" := by
  intro empty
  have no_text : (chunk.text source).toList = [] := by rw [empty]; rfl
  cases chunk with
  | copied span =>
      obtain ⟨start, stop⟩ := span
      obtain ⟨part, part_eq⟩ := valid
      rw [toList_text_copied part_eq] at no_text
      have part_width := Text.width_of_slice? part_eq
      rw [no_text, Text.width_nil, Nat.add_zero] at part_width
      simp [isVoid, part_width] at filled
  | synthetic text => simp [isVoid, show text = "" from empty] at filled

/-- One more chunk leaves merged chunks settled. -/
theorem Settled.extend {source : String} {merged : List Chunk} {chunk : Chunk}
    (settled : Settled source merged) (valid : chunk.IsValid source) :
    Settled source (extend merged chunk) := by
  rcases extend_cases merged chunk with ⟨-, same⟩ | ⟨-, front, last, joined, rfl, join, grown⟩ |
      ⟨filled, apart, longer⟩
  · rwa [same]
  · have last_valid := settled.valid last (by simp)
    obtain ⟨joined_valid, joined_eq⟩ := toList_text_of_join? last_valid valid join
    rw [grown]
    refine ⟨?_, ?_, ?_⟩
    · exact List.forall_mem_append.2 ⟨(List.forall_mem_append.1 settled.valid).1,
        List.forall_mem_singleton.2 joined_valid⟩
    · refine List.forall_mem_append.2 ⟨(List.forall_mem_append.1 settled.filled).1,
        List.forall_mem_singleton.2 fun empty => ?_⟩
      rw [empty] at joined_eq
      have last_empty := (List.append_eq_nil_iff.1 joined_eq.symm).1
      exact settled.filled last (by simp) (String.toList_eq_nil_iff.1 last_empty)
    · obtain ⟨front_apart, -, meets⟩ := List.isChain_append.1 settled.apart
      refine List.isChain_append.2 ⟨front_apart, .singleton _, ?_⟩
      rintro left left_last right ⟨⟩
      exact (apart_joined_iff join left).2 (meets left left_last last rfl)
  · rw [longer]
    refine ⟨?_, ?_, ?_⟩
    · exact List.forall_mem_append.2 ⟨settled.valid, List.forall_mem_singleton.2 valid⟩
    · exact List.forall_mem_append.2
        ⟨settled.filled, List.forall_mem_singleton.2 (text_ne_empty filled valid)⟩
    · refine List.isChain_append.2 ⟨settled.apart, .singleton _, ?_⟩
      rintro left left_last right ⟨⟩
      exact apart left left_last

/-- Merged chunks are settled. -/
theorem settled_merge {source : String} {chunks : List Chunk}
    (valid : ∀ chunk ∈ chunks, chunk.IsValid source) : Settled source (merge chunks) := by
  induction chunks using List.reverseRecOn with
  | nil => exact ⟨by simp [merge], by simp [merge], .nil⟩
  | append_singleton chunks chunk ih =>
      rw [merge_concat]
      exact (ih fun other member => valid other (List.mem_append_left _ member)).extend
        (valid chunk (List.mem_append_right _ List.mem_cons_self))

/-! ## Where copied ranges end -/

/-- No copied range ends behind the offset. -/
def EndsBy (bound : Nat) (chunks : List Chunk) : Prop :=
  ∀ span, copied span ∈ chunks → span.stop ≤ bound

theorem EndsBy.extend {bound : Nat} {merged : List Chunk} {chunk : Chunk}
    (ends : EndsBy bound (merged ++ [chunk])) : EndsBy bound (extend merged chunk) := by
  intro span member
  rcases extend_cases merged chunk with ⟨-, same⟩ | ⟨-, front, last, joined, rfl, join, grown⟩ |
      ⟨-, -, longer⟩
  · exact ends span (List.mem_append_left _ (same ▸ member))
  · rw [grown] at member
    rcases List.mem_append.1 member with in_front | in_joined
    · exact ends span (by simp [in_front])
    · obtain rfl := List.mem_singleton.1 in_joined
      -- a range that is joined to the last one gives the longer range its end
      rcases last with ⟨start, middle⟩ | text <;> rcases chunk with ⟨middle', stop⟩ | other
      case copied.copied =>
        have stop_le := ends ⟨middle', stop⟩ (by simp)
        simp only [join?_copied] at join
        split at join
        · obtain rfl := copied.inj (Option.some.inj join)
          exact stop_le
        · contradiction
      all_goals simp at join
  · exact ends span (longer ▸ member)

theorem EndsBy.merge {bound : Nat} {chunks : List Chunk} (ends : EndsBy bound chunks) :
    EndsBy bound (merge chunks) := by
  induction chunks using List.reverseRecOn with
  | nil => exact ends
  | append_singleton chunks chunk ih =>
      rw [merge_concat]
      refine EndsBy.extend fun span member => ?_
      rcases List.mem_append.1 member with in_merged | last
      · exact ih (fun other earlier => ends other (List.mem_append_left _ earlier)) span in_merged
      · exact ends span (List.mem_append_right _ last)

end Chunk
end Shakedown
