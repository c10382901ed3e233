import Shakedown.Module.Load
import Shakedown.Proofs.Module.MapComment
import Shakedown.Proofs.Module.Output
import Shakedown.Proofs.Script.Program
import Shakedown.Proofs.SourceMap.Provenance

/-!
# The map of a loaded text

The map is made of the text that the passes leave, and lines that name a map are taken out of that
text afterwards. So the map describes the loaded text up to the first of these lines, and behind it
the text as it was before.
-/

namespace Shakedown
namespace SourceMap

/-- The map answers for every character of a text, and each origin that it names holds the same
character in the source. -/
def Describes (map : SourceMap) (source text : List Char) : Prop :=
  ∀ front char back, text = front ++ char :: back →
    ∃ answer, map.lookup (Position.origin.advance front) = .ok answer ∧
      ∀ origin ∈ answer, ∃ before behind, source = before ++ char :: behind ∧
        origin.position = Position.origin.advance before

theorem Describes.of_append {map : SourceMap} {source front back : List Char}
    (describes : map.Describes source (front ++ back)) : map.Describes source front := by
  rintro before char behind rfl
  exact describes before char (behind ++ back) (by simp)

/-- Every character of an assembled text stands in one of the chunks. -/
theorem exists_chunk_of_assemble {source : String} {chunks : List Chunk} {front back : List Char}
    {char : Char} (text_eq : (Chunk.assemble source chunks).toList = front ++ char :: back) :
    ∃ before chunk after left right, chunks = before ++ chunk :: after ∧
      (chunk.text source).toList = left ++ char :: right ∧
      front = (Chunk.assemble source before).toList ++ left := by
  induction chunks generalizing front with
  | nil => simp at text_eq
  | cons chunk rest ih =>
      rw [Chunk.toList_assemble_cons] at text_eq
      obtain ⟨more, front_eq, rest_eq⟩ | ⟨more, chunk_eq, more_eq⟩ :=
        List.append_eq_append_iff.1 text_eq
      · obtain ⟨before, inner, after, left, right, rfl, inner_eq, rfl⟩ := ih rest_eq
        exact ⟨chunk :: before, inner, after, left, right, rfl, inner_eq, by simp [front_eq]⟩
      · cases more with
        | nil =>
            have rest_eq : (Chunk.assemble source rest).toList = [] ++ char :: back := more_eq.symm
            obtain ⟨before, inner, after, left, right, rfl, inner_eq, left_eq⟩ := ih rest_eq
            refine ⟨chunk :: before, inner, after, left, right, rfl, inner_eq, ?_⟩
            rw [Chunk.toList_assemble_cons, List.append_assoc, ← left_eq, chunk_eq]
            simp
        | cons first more =>
            obtain ⟨rfl, rest_eq⟩ := List.cons.inj more_eq
            exact ⟨[], chunk, rest, front, more, rfl, chunk_eq, rfl⟩

/-- The map of an edited text describes it. -/
theorem describes_ofChunks {source : String} (small : Text.width source.toList < 4294967296)
    {chunks : List Chunk} (addressable : Addressable (Chunk.assemble source chunks).toList)
    (file sourceName : String) :
    (ofChunks source chunks file sourceName).Describes source.toList
      (Chunk.assemble source chunks).toList := by
  intro front char back text_eq
  obtain ⟨before, chunk, after, left, right, rfl, chunk_eq, rfl⟩ :=
    exists_chunk_of_assemble text_eq
  cases chunk with
  | copied span =>
      obtain ⟨before', behind, source_eq, -, answer⟩ :=
        lookup_ofChunks_copied small addressable chunk_eq file sourceName
      refine ⟨_, answer, fun origin answered => ?_⟩
      obtain rfl := Option.some.inj answered
      exact ⟨before', behind, source_eq, rfl⟩
  | synthetic text =>
      exact ⟨none, lookup_ofChunks_synthetic small addressable chunk_eq file sourceName, by simp⟩

end SourceMap

/-- The options of a loading run. -/
def loading : Options :=
  { Options.standard with emitMap := true }

/-- What the passes leave, or else the text as it was, is made of chunks, and these make its map. -/
theorem optimize_eq_ofChunks (content : String) :
    ∃ chunks, optimize content loading =
      .ok ⟨Chunk.assemble content chunks, some (SourceMap.ofChunks content chunks "" "")⟩ := by
  obtain ⟨output, optimized⟩ := @exists_output loading rfl content
  obtain rfl | changed := unchanged_or_changed optimized
  · have whole : Chunk.assemble content [.copied ⟨0, Text.width content.toList⟩] = content := by
      rw [← String.toList_inj]
      simp [Chunk.text, Text.slice_whole]
    refine ⟨[.copied ⟨0, Text.width content.toList⟩], ?_⟩
    rw [optimized, whole]
    rfl
  · obtain ⟨script, read, -, rfl⟩ := Optimize.changed_eq_ok_iff.1 changed
    refine ⟨(Optimize.rendering script (Selection.ofText content) true).chunks, ?_⟩
    rw [optimized, ← Script.text_of_read read]
    rfl

/-- Without a map of earlier steps only the lines that name a map go. -/
theorem load_eq_ok {content optimized : String} {map : SourceMap}
    (succeeded : optimize content loading = .ok ⟨optimized, some map⟩) :
    load content none ⟨true⟩ = .ok ⟨MapComment.strip optimized, some map⟩ := by
  change (optimize content loading).bind _ = _
  rw [succeeded]
  rfl

/-- The map of a loaded text describes the text that the lines which name a map were taken out of.
So it describes the loaded text up to the place of the first of these lines. -/
theorem load_describes {content : String} (small : Text.width content.toList < 4294967296) :
    ∃ optimized map, optimize content loading = .ok ⟨optimized, some map⟩ ∧
      load content none ⟨true⟩ = .ok ⟨MapComment.strip optimized, some map⟩ ∧
      (SourceMap.Addressable optimized.toList →
        map.Describes content.toList optimized.toList ∧
        ∀ count, (∀ place < count,
            ¬MapComment.Begins ((Cursor.ofText optimized.toList).skip place)) →
          optimized.toList.take count <+: (MapComment.strip optimized).toList ∧
            map.Describes content.toList (optimized.toList.take count)) := by
  obtain ⟨chunks, optimized⟩ := optimize_eq_ofChunks content
  refine ⟨_, _, optimized, load_eq_ok optimized, fun addressable => ?_⟩
  have describes := SourceMap.describes_ofChunks small addressable "" ""
  constructor
  · exact describes
  · intro count unmarked
    rw [← List.take_append_drop count (Chunk.assemble content chunks).toList] at describes
    exact ⟨MapComment.take_prefix_strip unmarked, describes.of_append⟩

/-- A line that names a map and begins a line only once the statement before it is gone. -/
def uncovered : String :=
  "C.ctorParameters = function () \x7b\x7d;//# sourceMappingURL=a.js.map\nvar b = 1;\n"

/-- The map describes the manifest, and not what the line that is taken out gives way to. -/
theorem load_describes_uncovered :
    Text.width uncovered.toList < 4294967296 ∧
    ∃ map, load uncovered none ⟨true⟩ =
        .ok ⟨"/** PURE_IMPORTS_START  PURE_IMPORTS_END */\nvar b = 1;\n", some map⟩ ∧
      map.Describes uncovered.toList "/** PURE_IMPORTS_START  PURE_IMPORTS_END */\n".toList := by
  have small : Text.width uncovered.toList < 4294967296 := by decide
  have optimized_eq : (optimize uncovered loading).toOption.map Output.content =
      some ("/** PURE_IMPORTS_START  PURE_IMPORTS_END */\n" ++
        "//# sourceMappingURL=a.js.map\nvar b = 1;\n") := by
    decide +kernel
  obtain ⟨optimized, map, succeeded, loaded, describes⟩ := load_describes small
  rw [succeeded] at optimized_eq
  obtain rfl := Option.some.inj optimized_eq
  obtain ⟨-, describes⟩ := describes (SourceMap.addressable_of_width_lt (by decide +kernel))
  have unmarked : ∀ place < 44, ¬MapComment.Begins ((Cursor.ofText
      ("/** PURE_IMPORTS_START  PURE_IMPORTS_END */\n" ++
        "//# sourceMappingURL=a.js.map\nvar b = 1;\n").toList).skip place) := by
    decide +kernel
  have stripped : MapComment.strip ("/** PURE_IMPORTS_START  PURE_IMPORTS_END */\n" ++
      "//# sourceMappingURL=a.js.map\nvar b = 1;\n") =
      "/** PURE_IMPORTS_START  PURE_IMPORTS_END */\nvar b = 1;\n" := by
    decide +kernel
  rw [stripped] at loaded
  exact ⟨small, map, loaded, (describes 44 unmarked).2⟩

/-- A line that names a map in front of everything else. -/
def leading : String :=
  "//# sourceMappingURL=a.js.map\nvar b = 1;\n"

/-- The map takes the first character that is left to the line that was taken out. -/
theorem not_describes_leading : ∃ map,
    load leading none ⟨true⟩ = .ok ⟨"var b = 1;\n", some map⟩ ∧
      ¬map.Describes leading.toList "var b = 1;\n".toList := by
  have idle : (Selection.ofText leading).any = false := by decide +kernel
  have optimized : optimize leading loading =
      .ok ⟨leading, some (SourceMap.identity leading "" "")⟩ := by
    rw [optimize]
    simp only [idle]
    rfl
  have stripped : MapComment.strip leading = "var b = 1;\n" := by decide +kernel
  have loaded := load_eq_ok optimized
  rw [stripped] at loaded
  refine ⟨_, loaded, fun describes => ?_⟩
  have small : Text.width leading.toList < 4294967296 := by decide
  obtain ⟨answer, first, known⟩ := describes [] 'v' "ar b = 1;\n".toList rfl
  have source_eq : leading.toList =
      [] ++ '/' :: "/# sourceMappingURL=a.js.map\nvar b = 1;\n".toList := rfl
  have of_identity := SourceMap.lookup_identity small source_eq "" ""
  obtain rfl := Except.ok.inj (first.symm.trans of_identity)
  obtain ⟨before, behind, source_eq, start_eq⟩ := known _ rfl
  cases before with
  | nil => exact absurd (List.cons.inj source_eq).1 (by decide)
  | cons char rest =>
      have ahead := Position.before_advance Position.origin (List.cons_ne_nil char rest)
      rw [← start_eq] at ahead
      exact absurd ahead (by decide)

end Shakedown
