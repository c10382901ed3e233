import Shakedown.Text.Basic

/-!
# Chunks of an edited text

An edited text is a list of chunks, each copied from the given text or new. Neighbours that copy
adjoining ranges, and neighbouring new texts, are one chunk.
-/

namespace Shakedown

/-- A piece of an edited text. -/
inductive Chunk
  /-- A range copied from the given text. -/
  | copied (span : Span)
  /-- New text. -/
  | synthetic (text : String)
  deriving DecidableEq, Repr, Inhabited

namespace Chunk

/-- The text a chunk stands for; a range that cuts a character stands for nothing. -/
def text (source : String) : Chunk → String
  | copied span => Text.slice source span
  | synthetic text => text

/-- A chunk that stands for nothing whatever the given text. -/
def isVoid : Chunk → Bool
  | copied span => span.start == span.stop
  | synthetic text => text.isEmpty

/-- The one chunk that two neighbours form, if they form one. -/
def join? : Chunk → Chunk → Option Chunk
  | copied left, copied right =>
      if left.stop = right.start then some (.copied ⟨left.start, right.stop⟩) else none
  | synthetic left, synthetic right => some (.synthetic (left ++ right))
  | _, _ => none

/-- A chunk in front of merged chunks. -/
def attach (chunk : Chunk) (merged : List Chunk) : List Chunk :=
  if chunk.isVoid then
    merged
  else
    match merged with
    | [] => [chunk]
    | next :: rest =>
        match chunk.join? next with
        | some joined => joined :: rest
        | none => chunk :: next :: rest

/-- The chunks with void ones left out and mergeable neighbours merged. -/
def merge (chunks : List Chunk) : List Chunk :=
  chunks.foldr attach []

/-- The text that a list of chunks stands for. -/
def assemble (source : String) (chunks : List Chunk) : String :=
  String.join (chunks.map (text source))

private theorem foldl_append_toList (start : String) (texts : List String) :
    (texts.foldl (fun joined text => joined ++ text) start).toList =
      start.toList ++ texts.flatMap String.toList := by
  induction texts generalizing start with
  | nil => simp
  | cons text texts ih => simp [ih]

theorem toList_assemble (source : String) (chunks : List Chunk) :
    (assemble source chunks).toList = chunks.flatMap fun chunk => (chunk.text source).toList := by
  simp [assemble, String.join, foldl_append_toList, List.flatMap_map]

@[simp]
theorem toList_assemble_nil (source : String) : (assemble source []).toList = [] := rfl

@[simp]
theorem toList_assemble_cons (source : String) (chunk : Chunk) (chunks : List Chunk) :
    (assemble source (chunk :: chunks)).toList =
      (chunk.text source).toList ++ (assemble source chunks).toList := by
  simp [toList_assemble]

@[simp]
theorem toList_assemble_append (source : String) (front back : List Chunk) :
    (assemble source (front ++ back)).toList =
      (assemble source front).toList ++ (assemble source back).toList := by
  simp [toList_assemble]

end Chunk
end Shakedown
