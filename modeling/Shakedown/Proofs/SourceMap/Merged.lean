import Shakedown.Proofs.Edit.Extending
import Shakedown.Proofs.SourceMap.Provenance

/-!
# The map of merged chunks

Merging chunks makes fewer segments. A segment is lost when the text before its place is on the
same line and comes from right before in the source, or when it has no origin and neither has the
one before. Then the one before leads every place to the origin that the lost one led it to, so a
lookup gives the same answer on every line and at every column.
-/

namespace Shakedown

/-! ## Segments that say nothing new -/

namespace Segment

/-- Wherever the segment leads a place, the segment before leads it too: to the same origin, or to
none if it does not reach the place. -/
structure Repeats (extra base : Segment) : Prop where
  /-- Places that both reach have one origin. -/
  same : ∀ place, extra.Reaches place → base.Reaches place →
    extra.originAt place = base.originAt place
  /-- Places on later lines have none. -/
  none : ∀ place, extra.Reaches place → ¬ base.Reaches place → extra.originAt place = none

/-- The first segments are the others, perhaps without one that repeats the one before. -/
def Thins (fewer segments : List Segment) : Prop :=
  fewer = segments ∨
    ∃ front base extra back, segments = front ++ base :: extra :: back ∧
      fewer = front ++ base :: back ∧ extra.Repeats base

/-- When the segment behind a base governs a place, all others that reach it are no further to the
right than the base, which then reaches it too. -/
theorem reaches_of_governs_next {front back : List Segment} {base extra other : Segment}
    (ordered : (front ++ base :: extra :: back).Pairwise fun earlier later =>
      earlier.generated.before later.generated) {place : Position}
    (governs : Governs (front ++ base :: extra :: back) extra place)
    (member : other ∈ front ++ base :: back) (reaches : other.Reaches place) :
    base.Reaches place ∧ (other = base ∨ other.generated.column < base.generated.column) := by
  obtain ⟨-, tail_ordered, ahead⟩ := List.pairwise_append.1 ordered
  obtain ⟨base_before, extra_ordered⟩ := List.pairwise_cons.1 tail_ordered
  have extra_before := (List.pairwise_cons.1 extra_ordered).1
  have on_line := reaches.1.trans governs.reaches.1.symm
  have column_le := governs.reaches.2
  rcases List.mem_append.1 member with in_front | in_back
  · -- what stands ahead on the line has the base between itself and the governing segment
    have before := ahead other in_front base List.mem_cons_self
    have to_base := base_before extra List.mem_cons_self
    have line_eq := governs.reaches.1
    rw [Position.before_iff] at before to_base
    exact ⟨⟨by omega, by omega⟩, .inr (by omega)⟩
  · rcases List.mem_cons.1 in_back with rfl | in_back
    · exact ⟨reaches, .inl rfl⟩
    · have after := extra_before other in_back
      rw [Position.before_iff] at after
      rcases governs.closest other (by simp [in_back]) reaches with rfl | left <;> omega

/-- A lookup does not miss a segment that repeats the one before. -/
theorem lookup_without {front back : List Segment} {base extra : Segment}
    (ordered : (front ++ base :: extra :: back).Pairwise fun earlier later =>
      earlier.generated.before later.generated)
    (repeats : extra.Repeats base) (place : Position) :
    lookup (front ++ base :: back) place = lookup (front ++ base :: extra :: back) place := by
  have fewer : ∀ other ∈ front ++ base :: back, other ∈ front ++ base :: extra :: back := by
    simp only [List.mem_append, List.mem_cons]
    rintro other (member | rfl | member) <;> simp [*]
  cases found : governing? (front ++ base :: extra :: back) place with
  | none =>
      have unreached := governing?_eq_none_iff.1 found
      rw [lookup_of_ungoverned found, lookup_of_ungoverned]
      exact governing?_eq_none_iff.2 fun other member => unreached other (fewer other member)
  | some governor =>
      have governs := Governs.of_governing? (nodup_of_pairwise_before ordered) found
      rw [governs.lookup_eq]
      by_cases lost : governor = extra
      · subst lost
        by_cases reached : base.Reaches place
        · have takes_over : Governs (front ++ base :: back) base place :=
            ⟨by simp, reached, fun other member reaches =>
              (reaches_of_governs_next ordered governs member reaches).2⟩
          rw [takes_over.lookup_eq, repeats.same place governs.reaches reached]
        · rw [repeats.none place governs.reaches reached, lookup_of_ungoverned]
          exact governing?_eq_none_iff.2 fun other member reaches =>
            reached (reaches_of_governs_next ordered governs member reaches).1
      · have stays : Governs (front ++ base :: back) governor place := by
          refine ⟨?_, governs.reaches, fun other member => governs.closest other (fewer other member)⟩
          have member := governs.member
          simp only [List.mem_append, List.mem_cons] at member ⊢
          tauto
        rw [stays.lookup_eq]

theorem lookup_of_thins {fewer segments : List Segment} (thins : Thins fewer segments)
    (before after : List Segment)
    (ordered : (before ++ (segments ++ after)).Pairwise fun earlier later =>
      earlier.generated.before later.generated) (place : Position) :
    lookup (before ++ (fewer ++ after)) place = lookup (before ++ (segments ++ after)) place := by
  rcases thins with rfl | ⟨front, base, extra, back, rfl, rfl, repeats⟩
  · rfl
  · simp only [List.append_assoc, List.cons_append] at ordered ⊢
    rw [← List.append_assoc] at ordered
    rw [← List.append_assoc before, ← List.append_assoc before]
    exact lookup_without ordered repeats place

end Segment

namespace SourceMap

/-! ## Copied text -/

theorem lineStarts_append (generated inSource : Position) (front : List Char) {back : List Char}
    (filled : back ≠ []) :
    lineStarts generated inSource (front ++ back) =
      lineStarts generated inSource front ++
        ((if front.getLast? = some '\n' then
          [copied (generated.advance front) (inSource.advance front)] else []) ++
        lineStarts (generated.advance front) (inSource.advance front) back) := by
  induction front generalizing generated inSource with
  | nil => simp [lineStarts]
  | cons char front ih =>
      have behind : (front ++ back).isEmpty = false := by simp [filled]
      rw [List.cons_append, lineStarts, behind, ih, lineStarts]
      cases front with
      | nil => by_cases breaks : char = '\n' <;> simp [breaks, lineStarts]
      | cons next front => by_cases breaks : char = '\n' <;> simp [breaks]

/-- On a line that goes on, the last segment of a copied text is as far from the end of the text in
the copy as in the source. -/
theorem exists_last_segment (generated inSource : Position) {text : List Char}
    (goes_on : text.getLast? ≠ some '\n') :
    ∃ front base inBase width, copied generated inSource :: lineStarts generated inSource text =
        front ++ [copied base inBase] ∧
      generated.advance text = ⟨base.line, base.column + width⟩ ∧
      inSource.advance text = ⟨inBase.line, inBase.column + width⟩ := by
  induction text generalizing generated inSource with
  | nil => exact ⟨[], generated, inSource, 0, rfl, rfl, rfl⟩
  | cons char text ih =>
      have later : text.getLast? ≠ some '\n' := by
        cases text with
        | nil => simp
        | cons next text => simpa using goes_on
      obtain ⟨front, base, inBase, width, segments_eq, generated_eq, inSource_eq⟩ :=
        ih (generated.step char) (inSource.step char) later
      rw [lineStarts, Position.advance_cons, Position.advance_cons]
      by_cases breaks : char = '\n'
      · have opens : (char = '\n' && !text.isEmpty) = true := by
          cases text with
          | nil => exact absurd (by simp [breaks]) goes_on
          | cons next text => simp [breaks]
        rw [if_pos opens, segments_eq]
        exact ⟨copied generated inSource :: front, base, inBase, width, rfl, generated_eq,
          inSource_eq⟩
      · rw [if_neg (by simp [breaks])]
        cases front with
        | nil =>
            obtain ⟨first_eq, starts_eq⟩ := List.cons.inj segments_eq
            obtain ⟨rfl, rfl⟩ : generated.step char = base ∧ inSource.step char = inBase := by
              simpa [copied] using first_eq
            rw [starts_eq]
            refine ⟨[], generated, inSource, utf16Width char + width, rfl, ?_, ?_⟩
            · rw [generated_eq]
              simp [Position.step, breaks, Nat.add_assoc]
            · rw [inSource_eq]
              simp [Position.step, breaks, Nat.add_assoc]
        | cons first front =>
            obtain ⟨-, starts_eq⟩ := List.cons.inj segments_eq
            exact ⟨copied generated inSource :: front, base, inBase, width, by rw [starts_eq]; rfl,
              generated_eq, inSource_eq⟩

/-- Further to the right on a line, a segment with an origin as much further to the right repeats
the one before. -/
theorem repeats_copied (base inBase : Position) (width : Nat) :
    (copied ⟨base.line, base.column + width⟩ ⟨inBase.line, inBase.column + width⟩).Repeats
      (copied base inBase) := by
  constructor
  · rintro place ⟨-, column_le⟩ -
    simp only [copied] at column_le
    simp only [Segment.originAt, copied, Option.map_some, Option.some.injEq, Origin.mk.injEq,
      Position.mk.injEq, true_and, and_true]
    omega
  · rintro place ⟨line_eq, column_le⟩ unreached
    simp only [copied] at column_le
    exact absurd ⟨line_eq, by simp only [copied]; omega⟩ unreached

theorem repeats_unmapped (base later : Position) : (unmapped later).Repeats (unmapped base) :=
  ⟨fun _ _ _ => rfl, fun _ _ _ => rfl⟩

/-! ## Two chunks that become one -/

theorem chunkSegments_of_no_text {source : String} {chunk : Chunk}
    (no_text : (chunk.text source).toList = []) (generated : Position) :
    chunkSegments source generated chunk = [] :=
  if_pos (by simp [no_text])

theorem chunkSegments_copied {source : String} {span : Span} {part : List Char}
    (part_eq : Text.slice? source.toList span = some part) (filled : part ≠ [])
    (generated : Position) :
    chunkSegments source generated (.copied span) =
      copied generated (Position.ofOffset source span.start) ::
        lineStarts generated (Position.ofOffset source span.start) part := by
  rw [chunkSegments, Chunk.toList_text_copied part_eq]
  exact if_neg (by simpa using filled)

theorem chunkSegments_synthetic (source text : String) (filled : text ≠ "")
    (generated : Position) :
    chunkSegments source generated (.synthetic text) = [unmapped generated] :=
  if_neg (by simpa [Chunk.text] using filled)

variable {source : String} {left right joined : Chunk}

/-- Two ranges that become one lose at most the segment where the second begins: on a line that goes
on, it repeats the one before. -/
theorem thins_copied {start middle stop : Nat} {front back : List Char}
    (front_eq : Text.slice? source.toList ⟨start, middle⟩ = some front)
    (back_eq : Text.slice? source.toList ⟨middle, stop⟩ = some back)
    (front_filled : front ≠ []) (back_filled : back ≠ []) (generated : Position) :
    Segment.Thins (chunkSegments source generated (.copied ⟨start, stop⟩))
      (chunkSegments source generated (.copied ⟨start, middle⟩) ++
        chunkSegments source (generated.advance front) (.copied ⟨middle, stop⟩)) := by
  -- the second range begins in the source where the first one has led to
  have place_eq : Position.ofOffset source middle =
      (Position.ofOffset source start).advance front := by
    obtain ⟨before, behind, source_eq, rfl, rfl⟩ := Text.slice?_eq_some_iff.1 front_eq
    have longer : source.toList = (before ++ front) ++ behind := by simpa using source_eq
    rw [Position.ofOffset_width source_eq, ← Position.advance_append, ← Text.width_append,
      Position.ofOffset_width longer]
  rw [chunkSegments_copied front_eq front_filled, chunkSegments_copied back_eq back_filled,
    chunkSegments_copied (Text.slice?_append_slice? front_eq back_eq)
      (List.append_ne_nil_of_right_ne_nil front back_filled), place_eq,
    lineStarts_append _ _ _ back_filled]
  by_cases breaks : front.getLast? = some '\n'
  · rw [if_pos breaks]
    exact .inl (by simp)
  · rw [if_neg breaks, List.nil_append, ← List.cons_append]
    obtain ⟨ahead, base, inBase, width, segments_eq, generated_eq, inSource_eq⟩ :=
      exists_last_segment generated (Position.ofOffset source start) breaks
    rw [segments_eq]
    refine .inr ⟨ahead, copied base inBase, _, _, List.append_assoc .., List.append_assoc .., ?_⟩
    rw [generated_eq, inSource_eq]
    exact repeats_copied base inBase width

/-- New texts that become one lose a segment that repeats the one before. -/
theorem thins_synthetic (source : String) {text other : String} (text_filled : text ≠ "")
    (other_filled : other ≠ "") (generated : Position) :
    Segment.Thins (chunkSegments source generated (.synthetic (text ++ other)))
      (chunkSegments source generated (.synthetic text) ++
        chunkSegments source (generated.advance text.toList) (.synthetic other)) := by
  have whole_filled : text ++ other ≠ "" := fun empty =>
    text_filled (String.append_eq_empty_iff.1 empty).1
  rw [chunkSegments_synthetic source text text_filled,
    chunkSegments_synthetic source other other_filled,
    chunkSegments_synthetic source _ whole_filled]
  exact .inr ⟨[], unmapped generated, unmapped (generated.advance text.toList), [], rfl, rfl,
    repeats_unmapped _ _⟩

/-- Two chunks that become one lose at most one segment, which repeats the one before. -/
theorem thins_joined (left_valid : left.IsValid source) (right_valid : right.IsValid source)
    (left_filled : left.text source ≠ "") (right_filled : right.text source ≠ "")
    (join : left.join? right = some joined) (generated : Position) :
    Segment.Thins (chunkSegments source generated joined)
      (chunkSegments source generated left ++
        chunkSegments source (generated.advance (left.text source).toList) right) := by
  rcases left with ⟨start, middle⟩ | text <;> rcases right with ⟨middle', stop⟩ | other
  case copied.copied =>
    simp only [Chunk.join?_copied] at join
    split at join
    case isFalse => contradiction
    case isTrue adjoining =>
      subst adjoining
      obtain rfl := Option.some.inj join
      obtain ⟨front, front_eq⟩ := left_valid
      obtain ⟨back, back_eq⟩ := right_valid
      have front_text := Chunk.toList_text_copied front_eq
      have back_text := Chunk.toList_text_copied back_eq
      rw [front_text]
      refine thins_copied front_eq back_eq ?_ ?_ generated
      · rintro rfl
        exact left_filled (String.toList_eq_nil_iff.1 front_text)
      · rintro rfl
        exact right_filled (String.toList_eq_nil_iff.1 back_text)
  case synthetic.synthetic =>
    obtain rfl := Option.some.inj join
    exact thins_synthetic source left_filled right_filled generated
  all_goals contradiction

/-- A lookup does not see whether two chunks have become one. -/
theorem lookup_joined (left_valid : left.IsValid source) (right_valid : right.IsValid source)
    (left_filled : left.text source ≠ "") (right_filled : right.text source ≠ "")
    (join : left.join? right = some joined) (generated : Position) (before after : List Chunk)
    (place : Position) :
    Segment.lookup (chunksSegments source generated (before ++ joined :: after)) place =
      Segment.lookup (chunksSegments source generated (before ++ left :: right :: after)) place := by
  obtain ⟨-, text_eq⟩ := Chunk.toList_text_of_join? left_valid right_valid join
  have ordered := pairwise_before_chunksSegments source generated
    (before ++ left :: right :: after)
  rw [chunksSegments_append, chunksSegments, chunksSegments] at ordered
  rw [chunksSegments_append, chunksSegments_append, chunksSegments, chunksSegments, chunksSegments,
    text_eq, Position.advance_append]
  generalize generated.advance (Chunk.assemble source before).toList = start at ordered ⊢
  rw [← List.append_assoc (chunkSegments source start left)] at ordered ⊢
  exact Segment.lookup_of_thins
    (thins_joined left_valid right_valid left_filled right_filled join start) _ _ ordered place

/-! ## All chunks -/

/-- A lookup does not see whether one more chunk has been taken in. -/
theorem lookup_extend {merged : List Chunk} {chunk : Chunk} (settled : Chunk.Settled source merged)
    (valid : chunk.IsValid source) (generated : Position) (after : List Chunk)
    (place : Position) :
    Segment.lookup (chunksSegments source generated (Chunk.extend merged chunk ++ after)) place =
      Segment.lookup (chunksSegments source generated (merged ++ chunk :: after)) place := by
  rcases Chunk.extend_cases merged chunk with ⟨void, same⟩ |
      ⟨filled, front, last, joined, rfl, join, grown⟩ | ⟨-, -, longer⟩
  · have no_text := Chunk.toList_text_of_isVoid void valid
    rw [same, chunksSegments_append, chunksSegments_append, chunksSegments,
      chunkSegments_of_no_text no_text, no_text]
    rfl
  · rw [grown, List.append_assoc, List.append_assoc]
    exact lookup_joined (settled.valid last (by simp)) valid (settled.filled last (by simp))
      (Chunk.text_ne_empty filled valid) join generated front after place
  · rw [longer, List.append_assoc]
    rfl

/-- A lookup does not see whether chunks have been merged. -/
theorem lookup_chunksSegments_merge {chunks : List Chunk}
    (valid : ∀ chunk ∈ chunks, chunk.IsValid source) (generated : Position) (after : List Chunk)
    (place : Position) :
    Segment.lookup (chunksSegments source generated (Chunk.merge chunks ++ after)) place =
      Segment.lookup (chunksSegments source generated (chunks ++ after)) place := by
  induction chunks using List.reverseRecOn generalizing after with
  | nil => rfl
  | append_singleton chunks chunk ih =>
      obtain ⟨chunks_valid, chunk_valid⟩ := List.forall_mem_append.1 valid
      rw [Chunk.merge_concat, List.append_assoc,
        lookup_extend (Chunk.settled_merge chunks_valid) (chunk_valid chunk List.mem_cons_self),
        ih chunks_valid]
      rfl

/-- Merged chunks are not told from the chunks that they were merged from: they stand for the same
text, and their map gives the same answer at every place of it and beyond. They are what taking the
chunks in one by one gives, none of them is empty, and no two neighbours could be one. -/
theorem merge_unseen (source file sourceName : String) {chunks : List Chunk}
    (valid : ∀ chunk ∈ chunks, chunk.IsValid source)
    (offsets : ∀ span, .copied span ∈ chunks → span.stop < 4294967296)
    (addressable : Addressable (Chunk.assemble source chunks).toList) :
    Chunk.merge chunks = chunks.foldl Chunk.extend [] ∧
    Chunk.assemble source (Chunk.merge chunks) = Chunk.assemble source chunks ∧
    (∀ place, (ofChunks source (Chunk.merge chunks) file sourceName).lookup place =
      (ofChunks source chunks file sourceName).lookup place) ∧
    (∀ chunk ∈ Chunk.merge chunks, chunk.text source ≠ "") ∧
    (Chunk.merge chunks).IsChain Chunk.Apart := by
  have settled := Chunk.settled_merge valid
  have text_eq := (Chunk.StandFor.merge ⟨valid, rfl⟩).text_eq
  have near : Chunk.EndsBy 4294967296 chunks := fun span member => (offsets span member).le
  refine ⟨Chunk.merge_eq_foldl chunks, String.toList_inj.1 text_eq, fun place => ?_,
    settled.filled, settled.apart⟩
  rw [lookup_ofChunks_eq (fun span member _ => near.merge span member) (text_eq ▸ addressable),
    lookup_ofChunks_eq (fun span member _ => near span member) addressable]
  simpa using lookup_chunksSegments_merge valid Position.origin [] place

/-- Two ranges adjoin behind an empty text and an empty range, a third goes on behind a line break,
and new texts are kept apart by an empty range from elsewhere. -/
theorem merge_unseen_skipping :
    let chunks : List Chunk :=
      [.copied ⟨0, 1⟩, .synthetic "", .copied ⟨6, 6⟩, .copied ⟨1, 4⟩, .copied ⟨4, 5⟩,
        .synthetic "x\n", .copied ⟨0, 0⟩, .synthetic "y", .copied ⟨5, 6⟩]
    (∀ chunk ∈ chunks, chunk.IsValid "aé\nbc") ∧
    (∀ span, .copied span ∈ chunks → span.stop < 4294967296) ∧
    Addressable (Chunk.assemble "aé\nbc" chunks).toList ∧
    chunks.foldl Chunk.extend [] = [.copied ⟨0, 5⟩, .synthetic "x\ny", .copied ⟨5, 6⟩] ∧
    (ofChunks "aé\nbc" (Chunk.merge chunks) "" "").lookup ⟨1, 0⟩ =
      (ofChunks "aé\nbc" chunks "" "").lookup ⟨1, 0⟩ := by
  intro chunks
  have valid : ∀ chunk ∈ chunks, chunk.IsValid "aé\nbc" := by
    simp only [chunks, List.forall_mem_cons, List.not_mem_nil, false_imp_iff, implies_true,
      and_true]
    exact ⟨⟨['a'], rfl⟩, trivial, ⟨[], rfl⟩, ⟨['é', '\n'], rfl⟩, ⟨['b'], rfl⟩, trivial, ⟨[], rfl⟩,
      trivial, ⟨['c'], rfl⟩⟩
  have offsets : ∀ span, .copied span ∈ chunks → span.stop < 4294967296 := by
    simp [chunks]
  have addressable : Addressable (Chunk.assemble "aé\nbc" chunks).toList :=
    addressable_of_width_lt (by decide)
  obtain ⟨-, -, lookups, -, -⟩ := merge_unseen "aé\nbc" "" "" valid offsets addressable
  exact ⟨valid, offsets, addressable, by decide, lookups ⟨1, 0⟩⟩

end SourceMap
end Shakedown
