import Shakedown.Proofs.Edit.Rendering
import Shakedown.Proofs.Pass.PureCall

/-!
# Marking alone only adds comments

Without the other passes nothing is left out and nothing moves: the text stays as it is, character by
character, and what is added between the characters is a whole comment with a blank or a line end.
Where a token may begin, such a comment is skipped. Right behind a slash it is not: there the slash and
the comment open a comment of another kind, which takes the rest of the line away.
-/

namespace Shakedown
namespace Optimize

open Text

variable {script : Script} {edit : Edit}

/-- What marking records on its own. -/
def markings (script : Script) : Revision :=
  PureCall.record script [] Revision.empty

/-- A text with comments added. -/
structure Annotates (script : Script) (result : List Char) : Prop where
  /-- Every character stays, behind what is inserted before it. -/
  result_eq : result =
    Meaning.read [] (Meaning.inserted (markings script).edits) 0 script.text.toList ++
      Meaning.inserted (markings script).edits (width script.text.toList)
  /-- What is inserted stands at an anchor and is skipped where a token may begin. -/
  remarks : ∀ edit ∈ (markings script).edits, PureCall.IsRemark script edit

theorem isRemark_of_mem (member : edit ∈ (markings script).edits) :
    PureCall.IsRemark script edit :=
  (PureCall.mem_edits_record member).resolve_left List.not_mem_nil

theorem gaps_markings (script : Script) : Meaning.gaps (markings script).edits = [] := by
  have none_left_out : (markings script).edits.filterMap Edit.gap? = [] := by
    apply List.filterMap_eq_nil_iff.2
    intro edit member
    obtain ⟨position, text, rfl, -⟩ := isRemark_of_mem member
    rfl
  rw [Meaning.gaps, none_left_out, List.filter_nil]

theorem tidy_markings (spaced : script.program.IsSpaced script.text.toList) :
    Meaning.Tidy script.text.toList (markings script).edits := by
  have none_moves {edit : Edit} (member : edit ∈ (markings script).edits) :
      edit.removed? = none ∧ edit.removal? = none := by
    obtain ⟨position, text, rfl, -⟩ := isRemark_of_mem member
    exact ⟨rfl, rfl⟩
  have no_move : ∀ body removed target suffix,
      .move body removed target suffix ∉ (markings script).edits := by
    intro body removed target suffix member
    have none_removed := (none_moves member).1
    contradiction
  have none_moved : (markings script).edits.filterMap Edit.removed? = [] :=
    List.filterMap_eq_nil_iff.2 fun edit member => (none_moves member).1
  have none_removed : (markings script).edits.filterMap Edit.removal? = [] :=
    List.filterMap_eq_nil_iff.2 fun edit member => (none_moves member).2
  constructor
  case boundaries =>
    intro edit member
    obtain ⟨position, text, rfl, anchor, -⟩ := isRemark_of_mem member
    simpa [Edit.offsets] using anchor.isBoundary spaced
  case nested => simp [gaps_markings]
  case movesApart => simp [none_moved]
  case bodies => exact fun _ _ _ _ member => absurd member (no_move _ _ _ _)
  case removalsApart => simp [none_removed]
  case targets => exact fun _ _ _ _ member => absurd member (no_move _ _ _ _)

/-- Where nothing is left out and nothing moves, what is inserted is all that is put. -/
theorem put_markings (script : Script) (source : List Char) :
    Meaning.put source (markings script).edits = Meaning.inserted (markings script).edits := by
  funext offset
  have none_along : (markings script).edits.any (Edit.takesAlong offset) = false := by
    rw [List.any_eq_false]
    intro edit member
    obtain ⟨position, text, rfl, -⟩ := isRemark_of_mem member
    exact Bool.false_ne_true
  have stays : Meaning.stays (markings script).edits offset := by
    simp [Meaning.stays, gaps_markings, none_along]
  rw [Meaning.put, Meaning.inserted, List.flatMap_def, List.flatMap_def]
  congr 1
  apply List.map_congr_left
  intro edit member
  obtain ⟨position, text, rfl, -⟩ := isRemark_of_mem member
  simp [Meaning.contribution, stays]

/-- Whatever text is read, marking it adds comments and nothing else. -/
theorem annotates_of_read {text file : String} (read : Script.read text file = .ok script) :
    Annotates script ((markings script).render text).text.toList := by
  have spaced := Script.isSpaced_of_read read
  obtain rfl := Script.text_of_read read
  constructor
  case result_eq =>
    have rendered : ((markings script).render script.text).text.toList =
        Meaning.text script.text.toList (markings script).edits :=
      (tidy_markings spaced).chunksOf_standFor.merge.text_eq
    rw [rendered, Meaning.text, put_markings, gaps_markings]
  case remarks => exact fun _ member => isRemark_of_mem member

end Optimize
end Shakedown
