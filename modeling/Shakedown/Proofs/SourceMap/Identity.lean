import Shakedown.Proofs.SourceMap.Provenance
import Shakedown.Proofs.SourceMap.Strays

/-!
# Chaining behind an identity map

An identity map copies whole lines, so every inner segment of these lines is carried over to its own
place. Of several inner segments at one place the last one governs in the inner map and the first one is
left in the chained map, but for the start of a line, where the chained map takes over the answer of the
inner one. So the chained map answers as the inner map does unless segments at one place disagree.
-/

namespace Shakedown
namespace SourceMap

open Segment (Governs)

/-- The copy of a whole line. -/
def lineCopy (line : Nat) : Segment :=
  copied ⟨line, 0⟩ ⟨line, 0⟩

/-! ## The segments of an identity map -/

/-- The segments of an identity map. -/
def identitySegments (content : String) : List Segment :=
  chunksSegments content Position.origin [.copied ⟨0, Text.width content.toList⟩]

theorem exists_lineCopy_of_mem_lineStarts {place : Position} {text : List Char} {segment : Segment}
    (member : segment ∈ lineStarts place place text) : ∃ line, segment = lineCopy line := by
  induction text generalizing place with
  | nil => simp [lineStarts] at member
  | cons char rest ih =>
      rw [lineStarts] at member
      split at member
      · rename_i opens
        rcases List.mem_cons.1 member with rfl | behind
        · have breaks : char = '\n' := by simpa using (Bool.and_eq_true_iff.1 opens).1
          exact ⟨place.line + 1, by simp [lineCopy, Position.step, breaks]⟩
        · exact ih behind
      · exact ih member

theorem identitySegments_eq (content : String) :
    identitySegments content =
      if content.toList = [] then []
      else lineCopy 0 :: lineStarts Position.origin Position.origin content.toList := by
  have start_eq : Position.ofOffset content 0 = Position.origin :=
    Position.ofOffset_width (List.nil_append content.toList).symm
  have whole : ((Chunk.copied ⟨0, Text.width content.toList⟩).text content).toList =
      content.toList := by
    rw [Chunk.text, Text.slice_whole]
  simp only [identitySegments, chunksSegments, chunkSegments, whole, start_eq, List.append_nil,
    List.isEmpty_iff]
  rfl

theorem exists_lineCopy_of_mem_identitySegments {content : String} {segment : Segment}
    (member : segment ∈ identitySegments content) : ∃ line, segment = lineCopy line := by
  rw [identitySegments_eq] at member
  split at member
  · simp at member
  · rcases List.mem_cons.1 member with rfl | behind
    · exact ⟨0, rfl⟩
    · exact exists_lineCopy_of_mem_lineStarts behind

/-- The line of every character is copied. -/
theorem lineCopy_mem_identitySegments {content : String} {front back : List Char} {char : Char}
    (content_eq : content.toList = front ++ char :: back) :
    lineCopy (Position.origin.advance front).line ∈ identitySegments content := by
  have filled : content.toList ≠ [] := by simp [content_eq]
  obtain ⟨base, governs, -⟩ :=
    exists_governs_copied Position.origin Position.origin front char back
  have member : base ∈ identitySegments content := by
    rw [identitySegments_eq, if_neg filled, content_eq]
    exact governs.member
  obtain ⟨line, rfl⟩ := exists_lineCopy_of_mem_identitySegments member
  have line_eq : line = (Position.origin.advance front).line := governs.reaches.1
  rwa [← line_eq]

/-! ## Chaining copies of lines -/

/-- Whole lines are copied and nothing else, in strict reading order. -/
structure CopiesLines (outer : List Segment) : Prop where
  /-- The segments stand in strict reading order. -/
  ordered : outer.Pairwise fun earlier later => earlier.generated.before later.generated
  /-- Each of them is the copy of a line. -/
  lines : ∀ segment ∈ outer, ∃ line, segment = lineCopy line

theorem copiesLines_identitySegments (content : String) : CopiesLines (identitySegments content) :=
  ⟨pairwise_before_chunksSegments _ _ _, fun _ => exists_lineCopy_of_mem_identitySegments⟩

/-- The inner segments behind the start of a line. -/
def behindStart (inner : List Segment) (line : Nat) : List Segment :=
  inner.filter fun segment => segment.generated.line == line && 0 < segment.generated.column

theorem mem_behindStart {inner : List Segment} {line : Nat} {segment : Segment} :
    segment ∈ behindStart inner line ↔
      segment ∈ inner ∧ segment.generated.line = line ∧ 0 < segment.generated.column := by
  simp [behindStart]

theorem firstAt?_behindStart {inner : List Segment} {place : Position} (behind : 0 < place.column) :
    firstAt? (behindStart inner place.line) place = firstAt? inner place := by
  rw [firstAt?, behindStart, List.find?_filter, firstAt?]
  congr 1
  funext segment
  by_cases here : segment.generated = place <;> simp [here, behind]

/-- A copied line carries over the inner segments where they stand. -/
theorem chain_lineCopy {inner : List Segment} {intermediate line : Nat} {next : Option Segment}
    (elsewhere : ∀ other ∈ next, other.generated.line ≠ line) :
    chain inner intermediate (lineCopy line) next =
      mapped inner intermediate (lineCopy line) :: behindStart inner line := by
  have endless : rangeEnd? (lineCopy line) ⟨0, ⟨line, 0⟩, none⟩ next = none := by
    cases next with
    | none => rfl
    | some other => exact if_neg (elsewhere other rfl)
  have carried_eq : carried inner (lineCopy line) ⟨0, ⟨line, 0⟩, none⟩ none =
      behindStart inner line := by
    simp only [carried, behindStart, Option.all_none, Bool.and_true]
    refine (List.map_congr_left fun segment member => ?_).trans (List.map_id _)
    obtain ⟨⟨place_line, place_column⟩, origin⟩ := segment
    have line_eq : place_line = line := by
      simpa using (Bool.and_eq_true_iff.1 (List.mem_filter.1 member).2).1
    simp [lineCopy, copied, line_eq]
  rw [← carried_eq, ← endless]
  rfl

theorem lookup_start (segments : List Segment) (line : Nat) :
    Segment.lookup segments ⟨line, 0⟩ =
      (Segment.governing? segments ⟨line, 0⟩).bind Segment.origin := by
  cases governs : Segment.governing? segments ⟨line, 0⟩ with
  | none => rw [Segment.lookup_of_ungoverned governs, Option.bind_none]
  | some segment =>
      rw [Segment.lookup_of_governing? governs, Segment.originAt, Option.bind_some]
      simp

/-- A segment at the start of a line that governs a place of it governs the start as well. -/
theorem governing?_start {segments : List Segment} {place : Position} {governor : Segment}
    (governs : Segment.governing? segments place = some governor)
    (start : governor.generated.column = 0) :
    Segment.governing? segments ⟨place.line, 0⟩ = some governor := by
  rw [← governs, Segment.governing?, Segment.governing?]
  congr 1
  refine List.filter_congr fun segment member => ?_
  have greatest := (Segment.reaches_of_governing? governs).2.2 segment member
  unfold Segment.Reaches at greatest
  rw [start] at greatest
  rw [Bool.eq_iff_iff]
  simp only [Bool.and_eq_true, beq_iff_eq, decide_eq_true_eq]
  constructor
  · rintro ⟨line_eq, at_start⟩
    exact ⟨line_eq, by omega⟩
  · rintro ⟨line_eq, column_le⟩
    exact ⟨line_eq, greatest ⟨line_eq, column_le⟩⟩

namespace CopiesLines

variable {outer inner : List Segment} {intermediate : Nat}

theorem tail {first : Segment} (copies : CopiesLines (first :: outer)) : CopiesLines outer :=
  ⟨(List.pairwise_cons.1 copies.ordered).2,
    fun segment member => copies.lines segment (List.mem_cons_of_mem _ member)⟩

theorem line_ne {line : Nat} (copies : CopiesLines (lineCopy line :: outer)) {other : Segment}
    (member : other ∈ outer) : other.generated.line ≠ line := by
  have before := (List.pairwise_cons.1 copies.ordered).1 other member
  obtain ⟨line', rfl⟩ := copies.tail.lines other member
  rw [Position.before_iff] at before
  simp only [lineCopy, copied] at before ⊢
  omega

theorem chainAll_cons {line : Nat} (copies : CopiesLines (lineCopy line :: outer)) :
    chainAll inner intermediate (lineCopy line :: outer) =
      mapped inner intermediate (lineCopy line) ::
        (behindStart inner line ++ chainAll inner intermediate outer) := by
  rw [chainAll, chain_lineCopy fun other head => copies.line_ne (List.mem_of_mem_head? head),
    List.cons_append]

/-- Copied lines become their own starts, and inner segments where they stood. -/
theorem of_mem_chainAll (copies : CopiesLines outer) {chained : Segment}
    (member : chained ∈ chainAll inner intermediate outer) :
    (∃ line, chained = mapped inner intermediate (lineCopy line)) ∨ chained ∈ inner := by
  induction outer with
  | nil => simp [chainAll] at member
  | cons first outer ih =>
      obtain ⟨line, rfl⟩ := copies.lines first List.mem_cons_self
      rw [copies.chainAll_cons] at member
      rcases List.mem_cons.1 member with rfl | behind
      · exact .inl ⟨line, rfl⟩
      · rcases List.mem_append.1 behind with here | later
        · exact .inr (mem_behindStart.1 here).1
        · exact ih copies.tail later

/-- Behind the start of a copied line the first segment at a place is that of the inner map. -/
theorem firstAt?_chainAll_behind (copies : CopiesLines outer) {place : Position}
    (behind : 0 < place.column) (copied_line : lineCopy place.line ∈ outer) :
    firstAt? (chainAll inner intermediate outer) place = firstAt? inner place := by
  induction outer with
  | nil => exact absurd copied_line List.not_mem_nil
  | cons first outer ih =>
      obtain ⟨line, rfl⟩ := copies.lines first List.mem_cons_self
      have start_ne : (mapped inner intermediate (lineCopy line)).generated ≠ place := by
        rintro rfl
        exact absurd behind (Nat.lt_irrefl 0)
      rw [copies.chainAll_cons, firstAt?_cons, if_neg start_ne, firstAt?_append]
      rcases List.mem_cons.1 copied_line with same | later
      · obtain rfl : place.line = line := congrArg (fun segment => segment.generated.line) same
        rw [firstAt?_behindStart behind]
        cases found : firstAt? inner place with
        | some segment => rfl
        | none =>
            rw [Option.none_or, firstAt?_eq_none_iff]
            intro chained member same_place
            rcases copies.tail.of_mem_chainAll member with ⟨other, rfl⟩ | original_mem
            · rw [← same_place] at behind
              exact absurd behind (Nat.lt_irrefl 0)
            · exact firstAt?_eq_none_iff.1 found chained original_mem same_place
      · have elsewhere : firstAt? (behindStart inner line) place = none := by
          rw [firstAt?_eq_none_iff]
          rintro segment member rfl
          exact copies.line_ne later (mem_behindStart.1 member).2.1
        rw [elsewhere, Option.none_or, ih copies.tail later]

/-- Only starts of lines are looked up, so no columns are added up. -/
theorem columnsFit (copies : CopiesLines outer) (inner_fits : ∀ segment ∈ inner, segment.Fits) :
    ColumnsFit outer inner intermediate := by
  intro chained member
  rcases copies.of_mem_chainAll member with ⟨line, rfl⟩ | original_mem
  · refine ⟨show 0 < 4294967296 by decide, ?_⟩
    intro answer answer_eq
    have answer_eq : (Segment.lookup inner ⟨line, 0⟩).getD ⟨intermediate, ⟨line, 0⟩, none⟩ = answer :=
      Option.some.inj answer_eq
    cases known : Segment.lookup inner ⟨line, 0⟩ with
    | none =>
        rw [known, Option.getD_none] at answer_eq
        rw [← answer_eq]
        exact show 0 < 4294967296 by decide
    | some found =>
        rw [known, Option.getD_some] at answer_eq
        rw [lookup_start] at known
        obtain ⟨original, governs, origin_eq⟩ := Option.bind_eq_some_iff.1 known
        have fits := inner_fits original (Segment.reaches_of_governing? governs).1
        rw [← answer_eq]
        exact (fits.origin found origin_eq).position.2
  · have fits := inner_fits chained original_mem
    exact ⟨fits.generated.2, fun origin origin_eq => (fits.origin origin origin_eq).position.2⟩

end CopiesLines

/-! ## The segment that is left -/

/-- Of the segments where the governing one stands, the first is left, but at the start of a line the
governing one itself. -/
structure IsLeft (inner : List Segment) (place : Position) (governor left : Segment) : Prop where
  /-- The governing segment of the place. -/
  governs : Segment.governing? inner place = some governor
  /-- The start of a line takes over the answer of the inner map. -/
  atStart : governor.generated.column = 0 → left = governor
  /-- Behind it the first of the segments at one place is left. -/
  behind : 0 < governor.generated.column → firstAt? inner governor.generated = some left

namespace IsLeft

variable {outer inner : List Segment} {place : Position} {governor left : Segment}

theorem exists_isLeft (governs : Segment.governing? inner place = some governor) :
    ∃ left, IsLeft inner place governor left := by
  rcases Nat.eq_zero_or_pos governor.generated.column with start | behind
  · exact ⟨governor, governs, fun _ => rfl, fun behind => absurd start (Nat.ne_of_gt behind)⟩
  · cases found : firstAt? inner governor.generated with
    | none =>
        exact absurd rfl
          (firstAt?_eq_none_iff.1 found governor (Segment.reaches_of_governing? governs).1)
    | some left => exact ⟨left, governs, fun start => absurd start (Nat.ne_of_gt behind), fun _ => found⟩

theorem mem_and_generated_eq (isLeft : IsLeft inner place governor left) :
    left ∈ inner ∧ left.generated = governor.generated := by
  rcases Nat.eq_zero_or_pos governor.generated.column with start | behind
  · rw [isLeft.atStart start]
    exact ⟨(Segment.reaches_of_governing? isLeft.governs).1, rfl⟩
  · exact of_firstAt? (isLeft.behind behind)

/-- The chained segment that governs a place of a copied line answers as the segment that is left. -/
theorem exists_governs (isLeft : IsLeft inner place governor left) (known : governor.origin ≠ none)
    (copies : CopiesLines outer) (copied_line : lineCopy place.line ∈ outer) (intermediate : Nat) :
    ∃ base, Governs (inOrder (chainAll inner intermediate outer)) base place ∧
      base.originAt place = left.originAt place := by
  obtain ⟨governor_mem, ⟨line_eq, column_le⟩, greatest⟩ :=
    Segment.reaches_of_governing? isLeft.governs
  have closest : ∀ other ∈ chainAll inner intermediate outer, other.Reaches place →
      other.generated.column ≤ governor.generated.column := by
    intro other member reaches
    rcases copies.of_mem_chainAll member with ⟨line, rfl⟩ | original_mem
    · exact Nat.zero_le _
    · exact greatest other original_mem reaches
  rcases Nat.eq_zero_or_pos governor.generated.column with start | behind
  · obtain rfl := isLeft.atStart start
    rw [start] at closest
    refine ⟨mapped inner intermediate (lineCopy place.line), governs_inOrder
      (firstAt?_chainAll intermediate copies.ordered copied_line) ⟨rfl, Nat.zero_le _⟩
      closest, ?_⟩
    obtain ⟨origin, origin_eq⟩ := Option.ne_none_iff_exists'.1 known
    have answer : Segment.lookup inner ⟨place.line, 0⟩ = some origin := by
      rw [lookup_start, governing?_start isLeft.governs start, Option.bind_some, origin_eq]
    have taken_over : (mapped inner intermediate (lineCopy place.line)).origin = left.origin := by
      rw [origin_eq]
      exact congrArg (fun found : Option Origin => some (found.getD _)) answer
    rw [Segment.originAt, Segment.originAt, taken_over, start]
    rfl
  · obtain ⟨-, same⟩ := isLeft.mem_and_generated_eq
    refine ⟨left, governs_inOrder ?_ ?_ ?_, rfl⟩
    · rw [same, copies.firstAt?_chainAll_behind behind (line_eq ▸ copied_line)]
      exact isLeft.behind behind
    · unfold Segment.Reaches
      rw [same]
      exact ⟨line_eq, column_le⟩
    · rw [same]
      exact closest

/-- The segment that is left answers as the governing one does when it has the same origin. -/
theorem originAt_eq_iff (isLeft : IsLeft inner place governor left) :
    left.originAt place = governor.originAt place ↔ left.origin = governor.origin := by
  obtain ⟨-, same⟩ := isLeft.mem_and_generated_eq
  rw [Segment.originAt, Segment.originAt, same]
  refine (Option.map_injective ?_).eq_iff
  rintro ⟨source, ⟨line, column⟩, name⟩ ⟨source', ⟨line', column'⟩, name'⟩ shifted
  simpa using shifted

end IsLeft

/-- Behind an identity map a place of the text has the origin that the inner map gives it, unless the
segments that stand closest in front of the place disagree: then the first of them answers, where in the
inner map the last one does. -/
theorem lookup_compose_identity {content : String}
    (small : Text.width content.toList < 4294967296) {inner : SourceMap}
    {innerSegments : List Segment} (inner_read : inner.segments = .ok innerSegments)
    (file sourceName : String) :
    ∃ composed, compose (identity content file sourceName) inner = .ok composed ∧
      ∀ front char back, content.toList = front ++ char :: back →
        ∀ origin, inner.lookup (Position.origin.advance front) = .ok (some origin) →
          ∃ governor left, IsLeft innerSegments (Position.origin.advance front) governor left ∧
            composed.lookup (Position.origin.advance front) =
              .ok (left.originAt (Position.origin.advance front)) ∧
            (composed.lookup (Position.origin.advance front) = .ok (some origin) ↔
              left.origin = governor.origin) ∧
            ((∀ other ∈ innerSegments, other.generated = governor.generated →
                other.origin = governor.origin) →
              composed.lookup (Position.origin.advance front) = .ok (some origin)) := by
  have outer_read : (identity content file sourceName).segments =
      .ok (identitySegments content) :=
    segments_ofChunks (copiesNear_of_width_lt small _) (addressable_whole small) file sourceName
  have inner_fits := Mappings.fits_of_decode (segmentsOf_eq_ok_iff.1 inner_read)
  have copies := copiesLines_identitySegments content
  obtain ⟨composed, composed_eq, parts⟩ := exists_isComposed outer_read inner_read
  have composed_read := parts.segments_eq outer_read inner_read (copies.columnsFit inner_fits)
  refine ⟨composed, composed_eq, ?_⟩
  intro front char back content_eq origin answer
  rw [lookup_eq_of_segments inner_read, Except.ok.injEq] at answer
  cases governs : Segment.governing? innerSegments (Position.origin.advance front) with
  | none => simp [Segment.lookup_of_ungoverned governs] at answer
  | some governor =>
      rw [Segment.lookup_of_governing? governs] at answer
      have known : governor.origin ≠ none := by
        intro unknown
        simp [Segment.originAt, unknown] at answer
      obtain ⟨left, isLeft⟩ := IsLeft.exists_isLeft governs
      obtain ⟨base, base_governs, base_answer⟩ := isLeft.exists_governs known copies
        (lineCopy_mem_identitySegments content_eq) (nextIndex inner.sources)
      have composed_answer : composed.lookup (Position.origin.advance front) =
          .ok (left.originAt (Position.origin.advance front)) := by
        rw [lookup_eq_of_segments composed_read, base_governs.lookup_eq, base_answer]
      have agrees : composed.lookup (Position.origin.advance front) = .ok (some origin) ↔
          left.origin = governor.origin := by
        rw [composed_answer, Except.ok.injEq, ← answer, isLeft.originAt_eq_iff]
      obtain ⟨left_mem, same⟩ := isLeft.mem_and_generated_eq
      exact ⟨governor, left, isLeft, composed_answer, agrees,
        fun agree => agrees.2 (agree left left_mem same)⟩

/-- Two segments that disagree at the start of a line, and two that agree behind the start of one. -/
theorem lookup_compose_identity_repeated :
    Text.width "ab\ncd".toList < 4294967296 ∧
    (⟨3, "mid.js", none, ["in.ts"], [], [], "AAKA,AACA;CAJE,AAAA"⟩ : SourceMap).segments =
      .ok [⟨⟨0, 0⟩, some ⟨0, ⟨5, 0⟩, none⟩⟩, ⟨⟨0, 0⟩, some ⟨0, ⟨6, 0⟩, none⟩⟩,
        ⟨⟨1, 1⟩, some ⟨0, ⟨2, 2⟩, none⟩⟩, ⟨⟨1, 1⟩, some ⟨0, ⟨2, 2⟩, none⟩⟩] ∧
    ∃ composed, compose (identity "ab\ncd" "out.js" "mid.js")
        ⟨3, "mid.js", none, ["in.ts"], [], [], "AAKA,AACA;CAJE,AAAA"⟩ = .ok composed ∧
      composed.lookup ⟨0, 1⟩ = .ok (some ⟨0, ⟨6, 1⟩, none⟩) ∧
      composed.lookup ⟨1, 1⟩ = .ok (some ⟨0, ⟨2, 2⟩, none⟩) := by
  have small : Text.width "ab\ncd".toList < 4294967296 := by decide
  have inner_read :
      (⟨3, "mid.js", none, ["in.ts"], [], [], "AAKA,AACA;CAJE,AAAA"⟩ : SourceMap).segments =
        .ok [⟨⟨0, 0⟩, some ⟨0, ⟨5, 0⟩, none⟩⟩, ⟨⟨0, 0⟩, some ⟨0, ⟨6, 0⟩, none⟩⟩,
          ⟨⟨1, 1⟩, some ⟨0, ⟨2, 2⟩, none⟩⟩, ⟨⟨1, 1⟩, some ⟨0, ⟨2, 2⟩, none⟩⟩] := by
    rfl
  obtain ⟨composed, composed_eq, answers⟩ :=
    lookup_compose_identity small inner_read "out.js" "mid.js"
  refine ⟨small, inner_read, composed, composed_eq, ?atStart, ?behind⟩
  case atStart =>
    obtain ⟨governor, left, isLeft, -, agrees, -⟩ :=
      answers ['a'] 'b' ['\n', 'c', 'd'] (by decide) ⟨0, ⟨6, 1⟩, none⟩ rfl
    obtain rfl : ⟨⟨0, 0⟩, some ⟨0, ⟨6, 0⟩, none⟩⟩ = governor := Option.some.inj isLeft.governs
    exact agrees.2 (congrArg Segment.origin (isLeft.atStart rfl))
  case behind =>
    obtain ⟨governor, left, isLeft, -, -, agree⟩ :=
      answers ['a', 'b', '\n', 'c'] 'd' [] (by decide) ⟨0, ⟨2, 2⟩, none⟩ rfl
    obtain rfl : ⟨⟨1, 1⟩, some ⟨0, ⟨2, 2⟩, none⟩⟩ = governor := Option.some.inj isLeft.governs
    exact agree (by decide)

/-- Behind the start of a line the later of two segments at one place is lost. -/
theorem not_lookup_compose_repeated :
    (⟨3, "mid.js", none, ["in.ts"], [], [], "AAAA,CAAA,AACA"⟩ : SourceMap).lookup ⟨0, 1⟩ =
      .ok (some ⟨0, ⟨1, 0⟩, none⟩) ∧
    compose (identity "ab" "out.js" "mid.js")
        ⟨3, "mid.js", none, ["in.ts"], [], [], "AAAA,CAAA,AACA"⟩ =
      .ok ⟨3, "out.js", none, ["in.ts"], [], [], "AAAA,CAAA"⟩ ∧
    (⟨3, "out.js", none, ["in.ts"], [], [], "AAAA,CAAA"⟩ : SourceMap).lookup ⟨0, 1⟩ =
      .ok (some ⟨0, ⟨0, 0⟩, none⟩) := by
  have outer_eq : identity "ab" "out.js" "mid.js" =
      ⟨3, "out.js", none, ["mid.js"], [some "ab"], [], "AAAA"⟩ := by
    decide +kernel
  have chained_eq : compose ⟨3, "out.js", none, ["mid.js"], [some "ab"], [], "AAAA"⟩
        ⟨3, "mid.js", none, ["in.ts"], [], [], "AAAA,CAAA,AACA"⟩ =
      .ok ⟨3, "out.js", none, ["in.ts"], [], [], Mappings.encode (inOrder
        [⟨⟨0, 0⟩, some ⟨0, ⟨0, 0⟩, none⟩⟩, ⟨⟨0, 1⟩, some ⟨0, ⟨0, 0⟩, none⟩⟩,
          ⟨⟨0, 1⟩, some ⟨0, ⟨1, 0⟩, none⟩⟩])⟩ := by
    rfl
  refine ⟨rfl, ?_, rfl⟩
  rw [outer_eq, chained_eq, inOrder, List.mergeSort_of_pairwise (by decide)]
  rfl

end SourceMap
end Shakedown
