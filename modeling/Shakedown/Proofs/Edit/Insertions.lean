import Shakedown.Proofs.Edit.Meaning

/-!
# Texts that something is put into

An edit list that only puts in text takes nothing out and moves nothing. What it means is read in one
pass: the text up to the next place stays, then comes what is put there.
-/

namespace Shakedown
namespace Meaning

/-- The edits that put texts in at places. -/
def insertions (new : List (Nat × String)) : List Edit :=
  new.map fun (place, text) => .insert place text

/-- What stands at a place of the new text, up to the character there. -/
def putAt (new : List (Nat × String)) (offset : Nat) : List Char :=
  new.flatMap fun (place, text) => if place = offset then text.toList else []

/-- A text that begins at an offset, with texts put in. -/
def weave (new : List (Nat × String)) (offset : Nat) (text : List Char) : List Char :=
  read [] (putAt new) offset text ++ putAt new (offset + Text.width text)

variable {new : List (Nat × String)} {offset place : Nat} {text : String} {front back : List Char}

@[simp]
theorem gaps_insertions (new : List (Nat × String)) : gaps (insertions new) = [] := by
  simp [gaps, insertions, List.filterMap_map, Function.comp_def, Edit.gap?]

/-- Nothing travels and nothing is left out, so all that is put in stays in place. -/
theorem stays_insertions (new : List (Nat × String)) (offset : Nat) :
    stays (insertions new) offset = true := by
  simp [stays, insertions, Edit.takesAlong, gaps, List.filterMap_map, Function.comp_def, Edit.gap?]

theorem put_insertions (source : List Char) (new : List (Nat × String)) (offset : Nat) :
    put source (insertions new) offset = putAt new offset := by
  have stays := stays_insertions new offset
  rw [insertions] at stays
  simp [put, putAt, contribution, stays, insertions, List.flatMap_map]

theorem text_insertions (source : List Char) (new : List (Nat × String)) :
    Meaning.text source (insertions new) = weave new 0 source := by
  rw [Meaning.text, gaps_insertions, funext (put_insertions source new), weave, Nat.zero_add]

@[simp]
theorem weave_nil (offset : Nat) (source : List Char) : weave [] offset source = source := by
  have kept : read [] (putAt []) offset source = source := read_eq_self fun _ _ _ => ⟨rfl, rfl⟩
  rw [weave, kept]
  exact List.append_nil source

/-- What stands before all places stays. -/
theorem weave_append (behind : ∀ item ∈ new, offset + Text.width front ≤ item.1) :
    weave new offset (front ++ back) = front ++ weave new (offset + Text.width front) back := by
  have still : ∀ inner, offset ≤ inner → inner < offset + Text.width front → putAt new inner = [] := by
    intro inner _ before
    rw [putAt, List.flatMap_eq_nil_iff]
    rintro ⟨place, text⟩ listed
    have := behind _ listed
    exact if_neg (by simp only at *; omega)
  have kept : read [] (putAt new) offset front = front :=
    read_eq_self fun inner after before => ⟨rfl, still inner after before⟩
  rw [weave, read_append, kept, Text.width_append, List.append_assoc, weave, Nat.add_assoc]

/-- What is put in at the start comes first. -/
theorem weave_cons (source : List Char) :
    weave ((offset, text) :: new) offset source = text.toList ++ weave new offset source := by
  have elsewhere : ∀ inner, inner ≠ offset → putAt ((offset, text) :: new) inner = putAt new inner :=
    fun inner other => by simp [putAt, Ne.symm other]
  have here : putAt ((offset, text) :: new) offset = text.toList ++ putAt new offset := by simp [putAt]
  cases source with
  | nil => simp [weave, read, here]
  | cons char rest =>
      have wide := char.utf8Size_pos
      have same : ∀ start, offset < start →
          read [] (putAt ((offset, text) :: new)) start rest = read [] (putAt new) start rest := by
        induction rest with
        | nil => exact fun _ _ => rfl
        | cons other rest ih =>
            intro start behind
            rw [read, read, elsewhere start (by omega), ih (start + other.utf8Size) (by omega)]
      rw [weave, weave, read, read, here, same _ (by omega),
        elsewhere _ (by rw [Text.width_cons]; omega)]
      simp

example : weave [(1, "x"), (2, "y")] 0 ['a', 'b'] = ['a', 'x', 'b', 'y'] := by decide

end Meaning
end Shakedown
