import Shakedown.Proofs.SourceMap.Governing
import Shakedown.Proofs.SourceMap.RoundTrip
import Shakedown.Proofs.Text.Boundary
import Shakedown.SourceMap.OfChunks

/-!
# Where the characters of an edited text come from

The map of an edited text leads every copied character to the character it was copied from, and
no new character anywhere. Every segment stands before some character of the chunk it was made
for, so the segments of two chunks never get in each other's way.
-/

namespace Shakedown

/-! ## Where segments stand -/

/-- The segment stands before a character of a text that begins at `start`. -/
def Segment.StandsIn (segment : Segment) (start : Position) (text : List Char) : Prop :=
  ∃ front rest, text = front ++ rest ∧ rest ≠ [] ∧ segment.generated = start.advance front

namespace Segment.StandsIn

variable {segment : Segment} {start : Position} {text : List Char}

theorem start_le (stands : segment.StandsIn start text) :
    segment.generated = start ∨ start.before segment.generated := by
  obtain ⟨front, rest, -, -, place_eq⟩ := stands
  rw [place_eq]
  exact Position.eq_or_before_advance start front

theorem before_end (stands : segment.StandsIn start text) :
    segment.generated.before (start.advance text) := by
  obtain ⟨front, rest, rfl, rest_filled, place_eq⟩ := stands
  rw [place_eq, Position.advance_append]
  exact Position.before_advance _ rest_filled

theorem append_left (front : List Char) (stands : segment.StandsIn (start.advance front) text) :
    segment.StandsIn start (front ++ text) := by
  obtain ⟨inner, rest, rfl, rest_filled, place_eq⟩ := stands
  exact ⟨front ++ inner, rest, by simp, rest_filled, by simp [place_eq]⟩

theorem append_right (back : List Char) (stands : segment.StandsIn start text) :
    segment.StandsIn start (text ++ back) := by
  obtain ⟨front, rest, rfl, rest_filled, place_eq⟩ := stands
  exact ⟨front, rest ++ back, by simp, by simp [rest_filled], place_eq⟩

/-- Segments of a text stand before those of the text behind it. -/
theorem before (stands : segment.StandsIn start text) {other : Segment} {later : List Char}
    (other_stands : other.StandsIn (start.advance text) later) :
    segment.generated.before other.generated := by
  rcases other_stands.start_le with other_eq | behind
  · rw [other_eq]
    exact stands.before_end
  · exact Position.before_trans stands.before_end behind

/-- Segments of a text behind a place do not reach it. -/
theorem not_reaches (stands : segment.StandsIn start text) {place : Position}
    (ahead : place.before start) : ¬ segment.Reaches place := by
  apply not_reaches_of_before
  rcases stands.start_le with place_eq | behind
  · rw [place_eq]
    exact ahead
  · exact Position.before_trans ahead behind

end Segment.StandsIn

namespace SourceMap

theorem exists_of_mem_lineStarts {generated inSource : Position} {text : List Char}
    {segment : Segment} (member : segment ∈ lineStarts generated inSource text) :
    ∃ front rest, text = front ++ rest ∧ front ≠ [] ∧ rest ≠ [] ∧
      segment = copied (generated.advance front) (inSource.advance front) := by
  induction text generalizing generated inSource with
  | nil => simp [lineStarts] at member
  | cons char text ih =>
      have further (inner : segment ∈ lineStarts (generated.step char) (inSource.step char) text) :
          ∃ front rest, char :: text = front ++ rest ∧ front ≠ [] ∧ rest ≠ [] ∧
            segment = copied (generated.advance front) (inSource.advance front) := by
        obtain ⟨front, rest, rfl, -, rest_filled, rfl⟩ := ih inner
        exact ⟨char :: front, rest, rfl, List.cons_ne_nil _ _, rest_filled, rfl⟩
      rw [lineStarts] at member
      split at member
      · rename_i opens
        rcases List.mem_cons.1 member with rfl | inner
        · refine ⟨[char], text, rfl, List.cons_ne_nil _ _, ?_, rfl⟩
          rintro rfl
          simp at opens
        · exact further inner
      · exact further member

theorem before_of_mem_lineStarts {generated inSource : Position} {text : List Char}
    {segment : Segment} (member : segment ∈ lineStarts generated inSource text) :
    generated.before segment.generated := by
  obtain ⟨front, rest, -, front_filled, -, rfl⟩ := exists_of_mem_lineStarts member
  exact Position.before_advance generated front_filled

/-- A segment of a chunk stands before one of its characters. If it has an origin, that lies as far
behind the start of the copied range as the character does. -/
theorem exists_of_mem_chunkSegments {source : String} {generated : Position} {chunk : Chunk}
    {segment : Segment} (member : segment ∈ chunkSegments source generated chunk) :
    ∃ front rest, (chunk.text source).toList = front ++ rest ∧ rest ≠ [] ∧
      segment.generated = generated.advance front ∧
      ∀ origin ∈ segment.origin, ∃ span, chunk = .copied span ∧
        origin = ⟨0, (Position.ofOffset source span.start).advance front, none⟩ := by
  simp only [chunkSegments] at member
  split at member
  · simp at member
  · rename_i filled
    have text_filled : (chunk.text source).toList ≠ [] := by simpa using filled
    cases chunk with
    | copied span =>
        rcases List.mem_cons.1 member with rfl | inner
        · refine ⟨[], _, rfl, text_filled, rfl, ?_⟩
          rintro origin ⟨⟩
          exact ⟨span, rfl, rfl⟩
        · obtain ⟨front, rest, text_eq, -, rest_filled, rfl⟩ := exists_of_mem_lineStarts inner
          refine ⟨front, rest, text_eq, rest_filled, rfl, ?_⟩
          rintro origin ⟨⟩
          exact ⟨span, rfl, rfl⟩
    | synthetic text =>
        obtain rfl := List.mem_singleton.1 member
        exact ⟨[], _, rfl, text_filled, rfl, by simp [unmapped]⟩

theorem standsIn_of_mem_chunkSegments {source : String} {generated : Position} {chunk : Chunk}
    {segment : Segment} (member : segment ∈ chunkSegments source generated chunk) :
    segment.StandsIn generated (chunk.text source).toList := by
  obtain ⟨front, rest, text_eq, rest_filled, place_eq, -⟩ := exists_of_mem_chunkSegments member
  exact ⟨front, rest, text_eq, rest_filled, place_eq⟩

theorem standsIn_of_mem_chunksSegments {source : String} {generated : Position}
    {chunks : List Chunk} {segment : Segment}
    (member : segment ∈ chunksSegments source generated chunks) :
    segment.StandsIn generated (Chunk.assemble source chunks).toList := by
  induction chunks generalizing generated with
  | nil => simp [chunksSegments] at member
  | cons chunk chunks ih =>
      rw [Chunk.toList_assemble_cons]
      rcases List.mem_append.1 member with member | member
      · exact (standsIn_of_mem_chunkSegments member).append_right _
      · exact (ih member).append_left _

theorem chunksSegments_append (source : String) (generated : Position) (front back : List Chunk) :
    chunksSegments source generated (front ++ back) =
      chunksSegments source generated front ++
        chunksSegments source (generated.advance (Chunk.assemble source front).toList) back := by
  induction front generalizing generated with
  | nil => simp [chunksSegments]
  | cons chunk front ih => simp [chunksSegments, ih]

/-! ## Reading order of the segments -/

theorem pairwise_before_lineStarts (generated inSource : Position) (text : List Char) :
    (lineStarts generated inSource text).Pairwise fun earlier later =>
      earlier.generated.before later.generated := by
  induction text generalizing generated inSource with
  | nil => exact .nil
  | cons char text ih =>
      rw [lineStarts]
      split
      · exact .cons (fun later member => before_of_mem_lineStarts member) (ih _ _)
      · exact ih _ _

theorem pairwise_before_chunkSegments (source : String) (generated : Position) (chunk : Chunk) :
    (chunkSegments source generated chunk).Pairwise fun earlier later =>
      earlier.generated.before later.generated := by
  simp only [chunkSegments]
  split
  · exact .nil
  · cases chunk with
    | copied span =>
        exact .cons (fun later member => before_of_mem_lineStarts member)
          (pairwise_before_lineStarts _ _ _)
    | synthetic text => exact List.pairwise_singleton _ _

theorem pairwise_before_chunksSegments (source : String) (generated : Position)
    (chunks : List Chunk) :
    (chunksSegments source generated chunks).Pairwise fun earlier later =>
      earlier.generated.before later.generated := by
  induction chunks generalizing generated with
  | nil => exact .nil
  | cons chunk chunks ih =>
      refine List.pairwise_append.2 ⟨pairwise_before_chunkSegments _ _ _, ih _, ?_⟩
      intro earlier earlier_mem later later_mem
      exact (standsIn_of_mem_chunkSegments earlier_mem).before
        (standsIn_of_mem_chunksSegments later_mem)

/-! ## The governing segment of a character -/

open Segment (Governs)

/-- The first segment of a copied text stays the governing one when its start moves back along the
line. -/
theorem governs_copied_step {generated inSource : Position} {char : Char} {rest : List Segment}
    {place : Position} {origin : Option Origin} (same_line : char ≠ '\n')
    (behind : ∀ other ∈ rest, (generated.step char).before other.generated)
    (governs : Governs (copied (generated.step char) (inSource.step char) :: rest)
      (copied (generated.step char) (inSource.step char)) place)
    (origin_eq : (copied (generated.step char) (inSource.step char)).originAt place = origin) :
    Governs (copied generated inSource :: rest) (copied generated inSource) place ∧
      (copied generated inSource).originAt place = origin := by
  obtain ⟨line_eq, column_le⟩ := governs.reaches
  simp only [copied, Position.step, same_line, if_false] at line_eq column_le
  refine ⟨⟨by simp, ⟨line_eq, ?_⟩, ?_⟩, ?_⟩
  · simp only [copied]
    omega
  · intro other member reaches
    rcases List.mem_cons.1 member with same | inner
    · exact .inl same
    · exfalso
      have ahead := behind other inner
      have other_line : other.generated.line = place.line := reaches.1
      rcases governs.closest other (List.mem_cons_of_mem _ inner) reaches with same | further
      · rw [same, Position.before_iff] at ahead
        simp [copied] at ahead
      · rw [Position.before_iff] at ahead
        simp only [copied, Position.step, same_line, if_false] at ahead further
        omega
  · rw [← origin_eq]
    simp only [Segment.originAt, copied, Position.step, same_line, if_false, Option.map_some,
      Option.some.injEq, Origin.mk.injEq, Position.mk.injEq, true_and, and_true]
    omega

/-- Reading on along a line keeps the governing segment, and a line break in a copied text makes a
new one; either way it leads to where the reading in the source has got to. -/
theorem exists_governs_copied (generated inSource : Position) (left : List Char) (char : Char)
    (right : List Char) :
    ∃ base, Governs
        (copied generated inSource :: lineStarts generated inSource (left ++ char :: right))
        base (generated.advance left) ∧
      base.originAt (generated.advance left) = some ⟨0, inSource.advance left, none⟩ := by
  induction left generalizing generated inSource with
  | nil =>
      refine ⟨copied generated inSource, ⟨by simp, ⟨rfl, Nat.le_refl _⟩, ?_⟩, ?_⟩
      · intro other member reaches
        rcases List.mem_cons.1 member with same | inner
        · exact .inl same
        · exact absurd reaches (Segment.not_reaches_of_before (before_of_mem_lineStarts inner))
      · simp [Segment.originAt, copied]
  | cons next left ih =>
      obtain ⟨base, governs, origin_eq⟩ := ih (generated.step next) (inSource.step next)
      have first_before : generated.before (generated.step next) :=
        Position.before_step generated next
      simp only [List.cons_append, Position.advance_cons]
      rw [lineStarts]
      by_cases breaks : next = '\n'
      · have opens : (decide (next = '\n') && !(left ++ char :: right).isEmpty) = true := by
          simp [breaks]
        rw [if_pos opens]
        refine ⟨base, governs.cons ?_, origin_eq⟩
        rcases List.mem_cons.1 governs.member with rfl | inner
        · exact first_before
        · exact Position.before_trans first_before (before_of_mem_lineStarts inner)
      · rw [if_neg (by simp [breaks])]
        rcases List.mem_cons.1 governs.member with rfl | inner
        · exact ⟨_,
            governs_copied_step breaks (fun _ => before_of_mem_lineStarts) governs origin_eq⟩
        · exact ⟨base, (governs.of_cons inner).cons
            (Position.before_trans first_before (before_of_mem_lineStarts inner)), origin_eq⟩

/-- Inside its chunk a character keeps the governing segment that it has there. -/
theorem governs_chunksSegments {source : String} {generated : Position} {before : List Chunk}
    {chunk : Chunk} {left right : List Char} {char : Char} {base : Segment} (after : List Chunk)
    (text_eq : (chunk.text source).toList = left ++ char :: right)
    (governs : Governs
      (chunkSegments source (generated.advance (Chunk.assemble source before).toList) chunk) base
      (generated.advance ((Chunk.assemble source before).toList ++ left))) :
    Governs (chunksSegments source generated (before ++ chunk :: after)) base
      (generated.advance ((Chunk.assemble source before).toList ++ left)) := by
  rw [chunksSegments_append, chunksSegments]
  apply Governs.append_left
  · apply governs.append_right
    intro other member
    apply (standsIn_of_mem_chunksSegments member).not_reaches
    rw [text_eq, Position.advance_append, Position.advance_append]
    exact Position.before_advance _ (List.cons_ne_nil _ _)
  · intro other member
    exact (standsIn_of_mem_chunksSegments member).before
      (standsIn_of_mem_chunkSegments governs.member)

theorem lookup_copied {source : String} {generated : Position} {before after : List Chunk}
    {span : Span} {left right : List Char} {char : Char}
    (text_eq : ((Chunk.copied span).text source).toList = left ++ char :: right) :
    Segment.lookup (chunksSegments source generated (before ++ .copied span :: after))
        (generated.advance ((Chunk.assemble source before).toList ++ left)) =
      some ⟨0, (Position.ofOffset source span.start).advance left, none⟩ := by
  obtain ⟨base, governs, origin_eq⟩ := exists_governs_copied
    (generated.advance (Chunk.assemble source before).toList)
    (Position.ofOffset source span.start) left char right
  rw [← Position.advance_append] at governs origin_eq
  have whole := governs_chunksSegments after text_eq
    (by simpa [chunkSegments, text_eq] using governs)
  rw [whole.lookup_eq, origin_eq]

/-- A character of a new text is governed by the segment of its chunk or, on a later line of the
chunk, by none at all. -/
theorem lookup_synthetic {source : String} {generated : Position} {before after : List Chunk}
    {text : String} {left right : List Char} {char : Char}
    (text_eq : text.toList = left ++ char :: right) :
    Segment.lookup (chunksSegments source generated (before ++ .synthetic text :: after))
        (generated.advance ((Chunk.assemble source before).toList ++ left)) = none := by
  rw [Position.advance_append]
  generalize start_eq : generated.advance (Chunk.assemble source before).toList = start
  have segments_eq : chunksSegments source generated (before ++ .synthetic text :: after) =
      chunksSegments source generated before ++ unmapped start ::
        chunksSegments source (start.advance text.toList) after := by
    rw [chunksSegments_append, chunksSegments, start_eq]
    simp [chunkSegments, Chunk.text, text_eq]
  cases governs : Segment.governing?
      (chunksSegments source generated (before ++ .synthetic text :: after))
      (start.advance left) with
  | none => exact Segment.lookup_of_ungoverned governs
  | some base =>
      obtain ⟨member, reaches, greatest⟩ := Segment.reaches_of_governing? governs
      rw [segments_eq] at member greatest
      rw [Segment.lookup_of_governing? governs]
      rcases List.mem_append.1 member with member | member
      · -- The segment of the chunk would reach the place as well, and stands further to the right.
        exfalso
        have ahead : base.generated.before start := by
          rw [← start_eq]
          exact (standsIn_of_mem_chunksSegments member).before_end
        have line_eq : base.generated.line = (start.advance left).line := reaches.1
        have onward := Position.eq_or_before_advance start left
        have same_place := greatest (unmapped start) (by simp)
        simp only [Position.before_iff, Segment.Reaches, unmapped] at ahead onward same_place
        rcases onward with stays | onward
        · rw [stays] at line_eq same_place
          have further := same_place ⟨rfl, Nat.le_refl _⟩
          omega
        · have further := same_place ⟨by omega, by omega⟩
          omega
      · rcases List.mem_cons.1 member with rfl | member
        · rfl
        · refine absurd reaches ((standsIn_of_mem_chunksSegments member).not_reaches ?_)
          rw [text_eq, Position.advance_append]
          exact Position.before_advance _ (List.cons_ne_nil _ _)

/-! ## The map as it is written and read -/

/-- Every character of the text has an address: its line and its column fit into 32 bits. -/
def Addressable (text : List Char) : Prop :=
  ∀ front char back, text = front ++ char :: back → (Position.origin.advance front).Fits

theorem fits_advance {text : List Char} (small : Text.width text < 4294967296) :
    (Position.origin.advance text).Fits := by
  obtain ⟨line_le, column_le⟩ := Position.advance_le Position.origin text
  simp only [Position.origin, Nat.zero_add] at line_le column_le
  exact ⟨Nat.lt_of_le_of_lt line_le small, Nat.lt_of_le_of_lt column_le small⟩

theorem addressable_of_width_lt {text : List Char} (small : Text.width text < 4294967296) :
    Addressable text := by
  rintro front char back rfl
  rw [Text.width_append] at small
  exact fits_advance (by omega)

/-- No range is copied from behind the offsets that fit into 32 bits. -/
def CopiesNear (source : String) (chunks : List Chunk) : Prop :=
  ∀ span, .copied span ∈ chunks → Text.slice source span ≠ "" → span.stop ≤ 4294967296

theorem copiesNear_of_width_lt {source : String} (small : Text.width source.toList < 4294967296)
    (chunks : List Chunk) : CopiesNear source chunks := by
  intro span _ filled
  cases part_eq : Text.slice? source.toList span with
  | none => exact absurd (by rw [Text.slice, part_eq]; rfl) filled
  | some part =>
      obtain ⟨front, back, source_eq, front_width, part_width⟩ := Text.eq_append_of_slice? part_eq
      rw [source_eq] at small
      simp only [Text.width_append] at small
      omega

theorem fits_origin_of_mem_chunkSegments {source : String} {generated : Position} {chunk : Chunk}
    (near : CopiesNear source [chunk]) {segment : Segment}
    (member : segment ∈ chunkSegments source generated chunk) :
    ∀ origin ∈ segment.origin, origin.Fits := by
  obtain ⟨inner, rest, text_eq, rest_filled, -, from_source⟩ := exists_of_mem_chunkSegments member
  intro origin origin_mem
  obtain ⟨span, rfl, rfl⟩ := from_source origin origin_mem
  have filled : Text.slice source span ≠ "" := by
    intro empty
    rw [Chunk.text, empty] at text_eq
    exact rest_filled (List.append_eq_nil_iff.1 text_eq.symm).2
  have stop_le := near span List.mem_cons_self filled
  cases part_eq : Text.slice? source.toList span with
  | none => exact absurd (by rw [Text.slice, part_eq]; rfl) filled
  | some part =>
      obtain ⟨front, back, source_eq, front_width, part_width⟩ := Text.eq_append_of_slice? part_eq
      obtain rfl : part = inner ++ rest := by rw [← text_eq, Chunk.text, Text.slice, part_eq]; simp
      rw [← List.append_assoc, List.append_assoc] at source_eq
      rw [← front_width, Position.ofOffset_width source_eq, ← Position.advance_append]
      have rest_width : Text.width rest ≠ 0 := mt Text.eq_nil_of_width_eq_zero rest_filled
      refine ⟨show 0 < 4294967296 by decide, fits_advance ?_, by simp⟩
      simp only [Text.width_append] at part_width ⊢
      omega

theorem fits_of_mem_chunksSegments {source : String} {chunks : List Chunk}
    (near : CopiesNear source chunks)
    (addressable : Addressable (Chunk.assemble source chunks).toList) :
    ∀ segment ∈ chunksSegments source Position.origin chunks, segment.Fits := by
  intro segment member
  constructor
  · obtain ⟨front, rest, text_eq, rest_filled, place_eq⟩ := standsIn_of_mem_chunksSegments member
    obtain ⟨char, back, rfl⟩ := List.exists_cons_of_ne_nil rest_filled
    rw [place_eq]
    exact addressable front char back text_eq
  · clear addressable
    generalize Position.origin = generated at member
    induction chunks generalizing generated with
    | nil => simp [chunksSegments] at member
    | cons chunk chunks ih =>
        rcases List.mem_append.1 member with member | member
        · exact fits_origin_of_mem_chunkSegments
            (fun span here => near span (List.mem_singleton.1 here ▸ List.mem_cons_self)) member
        · exact ih (fun span later => near span (List.mem_cons_of_mem _ later)) _ member

/-- The map of an edited text is read back as the segments that it was made of. -/
theorem segments_ofChunks {source : String} {chunks : List Chunk} (near : CopiesNear source chunks)
    (addressable : Addressable (Chunk.assemble source chunks).toList)
    (file sourceName : String) :
    (ofChunks source chunks file sourceName).segments =
      .ok (chunksSegments source Position.origin chunks) :=
  segmentsOf_eq_ok_iff.2 (Mappings.decode_encode
    (linesAscend_of_pairwise_before (pairwise_before_chunksSegments _ _ _))
    (fits_of_mem_chunksSegments near addressable))

/-- A lookup in the map of an edited text is a lookup in the segments that the map was made of. -/
theorem lookup_ofChunks_eq {source : String} {chunks : List Chunk}
    (near : CopiesNear source chunks)
    (addressable : Addressable (Chunk.assemble source chunks).toList)
    (file sourceName : String) (place : Position) :
    (ofChunks source chunks file sourceName).lookup place =
      .ok (Segment.lookup (chunksSegments source Position.origin chunks) place) := by
  rw [lookup, segments_ofChunks near addressable]
  rfl

theorem lookup_ofChunks_copied {source : String}
    (small : Text.width source.toList < 4294967296) {before after : List Chunk} {span : Span}
    (addressable :
      Addressable (Chunk.assemble source (before ++ .copied span :: after)).toList)
    {left right : List Char} {char : Char}
    (text_eq : (Text.slice source span).toList = left ++ char :: right)
    (file sourceName : String) :
    ∃ front back, source.toList = front ++ char :: back ∧
      Text.width front = span.start + Text.width left ∧
      (ofChunks source (before ++ .copied span :: after) file sourceName).lookup
          (Position.origin.advance ((Chunk.assemble source before).toList ++ left)) =
        .ok (some ⟨0, Position.origin.advance front, none⟩) := by
  obtain ⟨front, back, source_eq, front_width⟩ := Text.eq_append_of_slice text_eq (by simp)
  refine ⟨front ++ left, right ++ back, by simp [source_eq], by simp [front_width], ?_⟩
  rw [lookup_ofChunks_eq (copiesNear_of_width_lt small _) addressable,
    lookup_copied (by exact text_eq), ← front_width, Position.ofOffset_width source_eq, Position.advance_append]

theorem lookup_ofChunks_synthetic {source : String}
    (small : Text.width source.toList < 4294967296) {before after : List Chunk} {text : String}
    (addressable :
      Addressable (Chunk.assemble source (before ++ .synthetic text :: after)).toList)
    {left right : List Char} {char : Char} (text_eq : text.toList = left ++ char :: right)
    (file sourceName : String) :
    (ofChunks source (before ++ .synthetic text :: after) file sourceName).lookup
        (Position.origin.advance ((Chunk.assemble source before).toList ++ left)) = .ok none := by
  rw [lookup_ofChunks_eq (copiesNear_of_width_lt small _) addressable, lookup_synthetic text_eq]

theorem addressable_whole {source : String} (small : Text.width source.toList < 4294967296) :
    Addressable (Chunk.assemble source [.copied ⟨0, Text.width source.toList⟩]).toList := by
  simpa [Chunk.text, Text.slice_whole] using addressable_of_width_lt small

theorem lookup_identity {source : String} (small : Text.width source.toList < 4294967296)
    {front back : List Char} {char : Char} (source_eq : source.toList = front ++ char :: back)
    (file sourceName : String) :
    (identity source file sourceName).lookup (Position.origin.advance front) =
      .ok (some ⟨0, Position.origin.advance front, none⟩) := by
  have text_eq : ((Chunk.copied ⟨0, Text.width source.toList⟩).text source).toList =
      front ++ char :: back := by
    rw [Chunk.text, Text.slice_whole, source_eq]
  have answer : Segment.lookup
      (chunksSegments source Position.origin ([] ++ [.copied ⟨0, Text.width source.toList⟩]))
      (Position.origin.advance ((Chunk.assemble source []).toList ++ front)) =
      some ⟨0, (Position.ofOffset source 0).advance front, none⟩ :=
    lookup_copied text_eq
  have start_eq : Position.ofOffset source 0 = Position.origin :=
    Position.ofOffset_width (List.nil_append source.toList).symm
  rw [identity, lookup_ofChunks_eq (copiesNear_of_width_lt small _) (addressable_whole small)]
  simpa [start_eq] using answer

/-- The map of an edited text answers for every character of it: with the character of the source
that it was copied from, or with nothing if it is new. So the identity map answers every place with
itself. -/
theorem lookup_ofChunks (source file sourceName : String)
    (small : Text.width source.toList < 4294967296) :
    (∀ chunks, Addressable (Chunk.assemble source chunks).toList →
      (∀ before span after left char right, chunks = before ++ .copied span :: after →
        (Text.slice source span).toList = left ++ char :: right →
        ∃ front back, source.toList = front ++ char :: back ∧
          Text.width front = span.start + Text.width left ∧
          (ofChunks source chunks file sourceName).lookup
              (Position.origin.advance ((Chunk.assemble source before).toList ++ left)) =
            .ok (some ⟨0, Position.origin.advance front, none⟩)) ∧
      ∀ before text after left char right, chunks = before ++ .synthetic text :: after →
        text.toList = left ++ char :: right →
        (ofChunks source chunks file sourceName).lookup
            (Position.origin.advance ((Chunk.assemble source before).toList ++ left)) =
          .ok none) ∧
    ∀ front char back, source.toList = front ++ char :: back →
      (identity source file sourceName).lookup (Position.origin.advance front) =
        .ok (some ⟨0, Position.origin.advance front, none⟩) := by
  refine ⟨fun chunks addressable => ⟨?_, ?_⟩, ?_⟩
  · rintro before span after left char right rfl text_eq
    exact lookup_ofChunks_copied small addressable text_eq file sourceName
  · rintro before text after left char right rfl text_eq
    exact lookup_ofChunks_synthetic small addressable text_eq file sourceName
  · intro front char back source_eq
    exact lookup_identity small source_eq file sourceName

/-- A text that is copied twice, the second time from further ahead, behind new text with a line
break of its own; one of its characters takes two units. -/
theorem lookup_ofChunks_astral :
    Text.width "x😀\ny".toList < 4294967296 ∧
    Addressable
      (Chunk.assemble "x😀\ny" [.synthetic "/*\n*/", .copied ⟨1, 7⟩, .copied ⟨0, 5⟩]).toList ∧
    (ofChunks "x😀\ny" [.synthetic "/*\n*/", .copied ⟨1, 7⟩, .copied ⟨0, 5⟩] "" "").lookup ⟨2, 2⟩ =
      .ok (some ⟨0, ⟨0, 1⟩, none⟩) ∧
    (ofChunks "x😀\ny" [.synthetic "/*\n*/", .copied ⟨1, 7⟩, .copied ⟨0, 5⟩] "" "").lookup ⟨1, 1⟩ =
      .ok none ∧
    (identity "x😀\ny" "" "").lookup ⟨1, 0⟩ = .ok (some ⟨0, ⟨1, 0⟩, none⟩) := by
  have small : Text.width "x😀\ny".toList < 4294967296 := by decide
  have addressable : Addressable
      (Chunk.assemble "x😀\ny" [.synthetic "/*\n*/", .copied ⟨1, 7⟩, .copied ⟨0, 5⟩]).toList :=
    addressable_of_width_lt (by decide)
  obtain ⟨of_chunks, of_identity⟩ := lookup_ofChunks "x😀\ny" "" "" small
  obtain ⟨of_copied, of_synthetic⟩ := of_chunks _ addressable
  refine ⟨small, addressable, ?_, ?_, ?_⟩
  · obtain ⟨front, back, source_eq, front_width, answer⟩ :=
      of_copied [.synthetic "/*\n*/", .copied ⟨1, 7⟩] ⟨0, 5⟩ [] ['x'] '😀' [] rfl (by decide)
    obtain ⟨rfl, -⟩ : front = ['x'] ∧ back = ['\n', 'y'] := by
      have halves := Text.splitAt?_append front ('😀' :: back)
      rw [← source_eq, front_width] at halves
      have known : Text.splitAt? "x😀\ny".toList (0 + Text.width ['x']) =
          some (['x'], '😀' :: ['\n', 'y']) := by decide
      simpa using halves.symm.trans known
    exact answer
  · exact of_synthetic [] "/*\n*/" [.copied ⟨1, 7⟩, .copied ⟨0, 5⟩] ['/', '*', '\n', '*'] '/' []
      rfl (by decide)
  · exact of_identity ['x', '😀', '\n'] 'y' [] (by decide)

end SourceMap
end Shakedown
