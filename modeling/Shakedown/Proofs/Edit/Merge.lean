import Shakedown.Edit.Chunk
import Shakedown.Proofs.Text.Boundary

/-!
# Merged chunks

Merging chunks leaves the text they stand for as it was, provided each copied range is a part of
the source: only then do two adjoining ranges make up the range that takes their place.
-/

namespace Shakedown
namespace Chunk

/-- The chunk is new text or a range between boundaries of the source. -/
def IsValid (source : String) : Chunk → Prop
  | copied span => ∃ part, Text.slice? source.toList span = some part
  | synthetic _ => True

theorem toList_text_copied {source : String} {span : Span} {part : List Char}
    (part_eq : Text.slice? source.toList span = some part) :
    ((copied span).text source).toList = part := by
  rw [text, Text.slice, part_eq, Option.getD_some, String.toList_ofList]

theorem toList_text_of_isVoid {source : String} {chunk : Chunk} (void : chunk.isVoid)
    (valid : chunk.IsValid source) : (chunk.text source).toList = [] := by
  cases chunk with
  | copied span =>
      obtain ⟨start, stop⟩ := span
      obtain ⟨part, part_eq⟩ := valid
      have empty : start = stop := by simpa [isVoid] using void
      have part_width := Text.width_of_slice? part_eq
      rw [toList_text_copied part_eq]
      exact Text.eq_nil_of_width_eq_zero (by omega)
  | synthetic new => simpa [isVoid, text] using void

/-- Two neighbours that form one chunk stand for what they form. -/
theorem toList_text_of_join? {source : String} {left right joined : Chunk}
    (left_valid : left.IsValid source) (right_valid : right.IsValid source)
    (join : left.join? right = some joined) :
    joined.IsValid source ∧ (joined.text source).toList =
      (left.text source).toList ++ (right.text source).toList := by
  cases left with
  | copied first =>
      cases right with
      | copied second =>
          obtain ⟨start, middle⟩ := first
          obtain ⟨middle', stop⟩ := second
          obtain ⟨front, front_eq⟩ := left_valid
          obtain ⟨back, back_eq⟩ := right_valid
          simp only [join?] at join
          split at join
          · rename_i adjoining
            subst adjoining
            obtain rfl := Option.some.inj join
            have whole_eq := Text.slice?_append_slice? front_eq back_eq
            refine ⟨⟨_, whole_eq⟩, ?_⟩
            rw [toList_text_copied whole_eq, toList_text_copied front_eq,
              toList_text_copied back_eq]
          · simp at join
      | synthetic new => simp [join?] at join
  | synthetic new =>
      cases right with
      | copied second => simp [join?] at join
      | synthetic other =>
          obtain rfl := Option.some.inj join
          exact ⟨trivial, by simp [text]⟩

theorem toList_assemble_attach {source : String} {chunk : Chunk} {merged : List Chunk}
    (valid : chunk.IsValid source) (merged_valid : ∀ other ∈ merged, other.IsValid source) :
    (∀ other ∈ chunk.attach merged, other.IsValid source) ∧
      (assemble source (chunk.attach merged)).toList =
        (chunk.text source).toList ++ (assemble source merged).toList := by
  unfold attach
  split
  · rename_i void
    exact ⟨merged_valid, by simp [toList_text_of_isVoid void valid]⟩
  · cases merged with
    | nil => simpa using valid
    | cons next rest =>
        have next_valid := merged_valid next (by simp)
        have rest_valid : ∀ other ∈ rest, other.IsValid source := fun other member =>
          merged_valid other (List.mem_cons_of_mem _ member)
        cases join : chunk.join? next with
        | none => simpa [join] using ⟨valid, next_valid, rest_valid⟩
        | some joined =>
            obtain ⟨joined_valid, joined_eq⟩ := toList_text_of_join? valid next_valid join
            simpa [join, joined_eq] using ⟨joined_valid, rest_valid⟩

/-- The chunks are valid, and the text is what they stand for. -/
structure StandFor (source : String) (chunks : List Chunk) (text : List Char) : Prop where
  /-- Each chunk is valid. -/
  valid : ∀ chunk ∈ chunks, chunk.IsValid source
  /-- Together they stand for the text. -/
  text_eq : (assemble source chunks).toList = text

namespace StandFor

variable {source : String}

theorem nil : StandFor source [] [] := ⟨by simp, rfl⟩

theorem copied {span : Span} {part : List Char}
    (part_eq : Text.slice? source.toList span = some part) :
    StandFor source [.copied span] part :=
  ⟨by simpa [IsValid] using ⟨part, part_eq⟩, by simp [toList_text_copied part_eq]⟩

theorem synthetic (new : String) : StandFor source [.synthetic new] new.toList :=
  ⟨by simp [IsValid], by simp [text]⟩

theorem append {front back : List Chunk} {first second : List Char}
    (front_stands : StandFor source front first) (back_stands : StandFor source back second) :
    StandFor source (front ++ back) (first ++ second) := by
  constructor
  · intro chunk member
    rcases List.mem_append.1 member with front_mem | back_mem
    · exact front_stands.valid chunk front_mem
    · exact back_stands.valid chunk back_mem
  · rw [toList_assemble_append, front_stands.text_eq, back_stands.text_eq]

/-- What stands for the items of a list one by one stands for all of them. -/
theorem flatMap {Item : Type} {items : List Item} {chunksOf : Item → List Chunk}
    {textOf : Item → List Char}
    (stands : ∀ item ∈ items, StandFor source (chunksOf item) (textOf item)) :
    StandFor source (items.flatMap chunksOf) (items.flatMap textOf) := by
  induction items with
  | nil => exact nil
  | cons item items ih =>
      rw [List.flatMap_cons, List.flatMap_cons]
      exact (stands item (by simp)).append
        (ih fun other member => stands other (List.mem_cons_of_mem _ member))

/-- Merged chunks stand for the same text. -/
theorem merge {chunks : List Chunk} {text : List Char} (stands : StandFor source chunks text) :
    StandFor source (merge chunks) text := by
  obtain ⟨valid, rfl⟩ := stands
  induction chunks with
  | nil => exact nil
  | cons chunk rest ih =>
      obtain ⟨rest_valid, rest_eq⟩ := ih fun other member => valid other (by simp [member])
      obtain ⟨attached_valid, attached_eq⟩ :=
        toList_assemble_attach (valid chunk (by simp)) rest_valid
      refine ⟨attached_valid, ?_⟩
      rw [toList_assemble_cons, ← rest_eq]
      exact attached_eq

end StandFor

end Chunk
end Shakedown
