import Shakedown.Proofs.Edit.FurtherRemovals
import Shakedown.Proofs.Module.MapComment
import Shakedown.Proofs.Module.Output
import Shakedown.Proofs.Module.Tidiness
import Shakedown.Proofs.Script.Program

/-!
# Asking for a map leaves out lines

A run that makes a map differs from one that makes none by the lines that name a map. Where these lines
keep apart from all statements, the text with a map is the text without one less the lines. The lines
are found in the text as such, inside of templates and other tokens as well.
-/

namespace Shakedown

/-- The first text holds the parts in order, and the second is what is left of it without them. -/
inductive LeavesOut : (parts : List (List Char)) → List Char → List Char → Prop
  /-- No part is left out. -/
  | done {text : List Char} : LeavesOut [] text text
  /-- The first part is left out. -/
  | part {before part after result : List Char} {parts : List (List Char)} :
      LeavesOut parts after result →
      LeavesOut (part :: parts) (before ++ (part ++ after)) (before ++ result)

namespace LeavesOut

variable {parts : List (List Char)} {text result : List Char}

theorem append_left (front : List Char) (leaves : LeavesOut parts text result) :
    LeavesOut parts (front ++ text) (front ++ result) := by
  cases leaves with
  | done => exact .done
  | @part before part after result parts leaves =>
      have further : LeavesOut (part :: parts) (front ++ before ++ (part ++ after))
          (front ++ before ++ result) := .part leaves
      simpa only [List.append_assoc] using further

theorem append_right (back : List Char) (leaves : LeavesOut parts text result) :
    LeavesOut parts (text ++ back) (result ++ back) := by
  induction leaves with
  | done => exact .done
  | part _ ih => simpa only [List.append_assoc] using .part ih

end LeavesOut

namespace Meaning

open Pattern Text

variable {pattern : Pattern} {cursor : Cursor} {found : List Match} {gaps widened : List Span}
  {put : Nat → List Char}

/-- When all matches are gaps as well, and nothing else happens inside of them, what is read is what
was read before without them. -/
theorem leavesOut_read (advances : pattern.Advances) (scans : Scans pattern cursor found)
    (same : ∀ offset, cursor.offset ≤ offset → widened.any (·.holds offset) =
      (gaps.any (·.holds offset) || found.any (·.span.holds offset)))
    (free : ∀ line ∈ found, ∀ offset, line.span.holds offset → gaps.any (·.holds offset) = false)
    (still : ∀ line ∈ found, ∀ offset, line.span.surrounds offset → put offset = []) :
    LeavesOut (found.map Match.text) (read gaps put cursor.offset cursor.after)
      (read widened put cursor.offset cursor.after) := by
  induction scans with
  | done => exact .done
  | @miss before after char others _ scans ih =>
      have here : others.any (·.span.holds (width before)) = false := by
        rw [List.any_eq_false]
        intro line member held
        have behind := scans.offset_le line member
        rw [Cursor.offset, width_cons] at behind
        have wide := char.utf8Size_pos
        rw [Span.holds_iff] at held
        omega
      have step_eq : width before + char.utf8Size = (⟨char :: before, after⟩ : Cursor).offset := by
        rw [Cursor.offset, width_cons, Nat.add_comm]
      have rest := ih (fun offset behind => same offset (by
        rw [← step_eq] at behind
        exact Nat.le_trans (Nat.le_add_right _ _) behind)) free still
      have same_here := same (width before) (Nat.le_refl _)
      rw [here, Bool.or_false] at same_here
      rw [← step_eq] at rest
      rw [Cursor.offset, read, read, same_here]
      exact rest.append_left _
  | @hit cursor line others matched scans ih =>
      have span_eq := span_of_matchAt? matched
      have filled := text_ne_nil_of_matchAt? advances matched
      have stop_eq : line.stop.offset = cursor.offset + width line.text :=
        congrArg Span.stop span_eq
      have held {offset : Nat} (behind : cursor.offset ≤ offset)
          (before : offset < cursor.offset + width line.text) : line.span.holds offset := by
        rw [span_eq, Span.holds_iff]
        exact ⟨behind, before⟩
      have quiet : ∀ offset, cursor.offset < offset → offset < cursor.offset + width line.text →
          put offset = [] := by
        intro offset behind before
        apply still line List.mem_cons_self
        rw [span_eq, Span.surrounds_iff]
        exact ⟨behind, before⟩
      have line_kept : read gaps put cursor.offset line.text = put cursor.offset ++ line.text :=
        read_stretch filled (fun offset behind before =>
          free line List.mem_cons_self offset (held behind before)) quiet
      have line_gone : read widened put cursor.offset line.text = put cursor.offset := by
        refine read_gap filled (fun offset behind before => ?_) quiet
        rw [same offset behind, List.any_cons, held behind before, Bool.true_or, Bool.or_true]
      have rest := ih (fun offset behind => by
          have ahead : line.span.holds offset = false := by
            rw [Bool.eq_false_iff, Ne, Span.holds_iff, span_eq]
            rintro ⟨-, before⟩
            exact Nat.lt_irrefl _ (Nat.lt_of_lt_of_le before (stop_eq ▸ behind))
          rw [same offset (by omega), List.any_cons, ahead, Bool.false_or])
        (fun other member => free other (List.mem_cons_of_mem _ member))
        (fun other member => still other (List.mem_cons_of_mem _ member))
      rw [(after_eq_of_matchAt? matched).1, read_append, read_append, line_kept, line_gone, ← stop_eq,
        List.append_assoc]
      exact .part rest

/-- Further matches that no edit touches are left out of the edited text. -/
theorem leavesOut_text {source : List Char} {edits : List Edit} (advances : pattern.Advances)
    (more : Further source edits ((pattern.findAll source).map Match.span)) :
    LeavesOut ((pattern.findAll source).map Match.text) (text source edits)
      (text source (withRemovals edits ((pattern.findAll source).map Match.span))) := by
  have put_eq : put source (withRemovals edits ((pattern.findAll source).map Match.span)) =
      put source edits := funext more.put_eq
  have scans := scans_findAll advances source
  rw [text, text, more.gaps_eq, put_eq]
  apply LeavesOut.append_right
  apply leavesOut_read advances scans
  · intro offset _
    rw [List.any_append, List.any_map]
    rfl
  · intro line member offset held
    exact (more.untouched _ (List.mem_map_of_mem member)).holds_eq_false held
  · intro line member offset surrounded
    exact (more.untouched _ (List.mem_map_of_mem member)).put_eq_nil surrounded

end Meaning

namespace Optimize

open Node Text Span

variable {script : Script} {selection : Selection}

/-- The lines of a text that name a map. -/
def mapLines (text : String) : List Match :=
  MapComment.pattern.findAll text.toList

/-- The lines that name a map keep apart from the statements, with the blanks around them, and stand
behind the line that names an interpreter. -/
def LinesApart (script : Script) : Prop :=
  ∀ line ∈ mapLines script.text,
    (∀ statement ∈ script.program.body,
      line.span.isApart (statementGap script.text statement.span)) ∧
    ∀ first ∈ script.program.hashbang, first.stop ≤ line.span.start

instance (script : Script) : Decidable (LinesApart script) :=
  inferInstanceAs (Decidable (∀ _ ∈ _, _ ∧ _))

theorem isProper_of_mem_mapLines (text : String) :
    ∀ span ∈ (mapLines text).map Match.span, span.isProper := by
  have scans := Pattern.scans_findAll MapComment.advances_pattern text.toList
  rw [List.forall_mem_map]
  exact fun line listed =>
    Pattern.isProper_of_matchAt? MapComment.advances_pattern (scans.matched line listed).1

/-- Lines that are not empty are recorded as removals. -/
theorem record_eq {text : String} {revision : Revision}
    (proper : ∀ span ∈ (mapLines text).map Match.span, span.isProper) :
    MapComment.record text revision =
      ⟨Meaning.withRemovals revision.edits ((mapLines text).map Match.span)⟩ := by
  rw [MapComment.record]
  rw [mapLines] at proper ⊢
  generalize MapComment.pattern.findAll text.toList = lines at proper ⊢
  induction lines generalizing revision with
  | nil => simp [Meaning.withRemovals]
  | cons line rest ih =>
      rw [List.map_cons, List.forall_mem_cons] at proper
      rw [List.foldl_cons, ih proper.2, Revision.remove, if_pos proper.1]
      simp [Meaning.withRemovals, Revision.record]

section Spaced

variable (spaced : script.program.IsSpaced script.text.toList) (apart : LinesApart script)
  {line : Match}

include spaced apart

/-- No tree begins in a line that is apart from all statements. -/
theorem not_holds_start {statement inner : Node} (listed : line ∈ mapLines script.text)
    (in_body : statement ∈ script.program.body) (below : inner ∈ statement.nodes) :
    line.span.holds inner.span.start = false := by
  have held := gap_holds_start spaced.row in_body below
  exact Bool.eq_false_iff.2 fun also_held =>
    not_isApart_of_holds also_held held ((apart line listed).1 statement in_body)

/-- No edit touches a line that is apart from all statements. -/
theorem isUntouched (listed : line ∈ mapLines script.text) :
    Meaning.IsUntouched (edits script selection).edits line.span := by
  constructor
  case gaps =>
    intro gap gap_mem
    obtain ⟨statement, in_body, among⟩ :=
      List.mem_flatMap.1 (mem_cuts_edits (List.mem_filter.1 gap_mem).1)
    rw [isApart_comm]
    exact isApart_of_covers ((apart line listed).1 statement in_body)
      (gap_covers spaced.row in_body among)
  case insertions =>
    intro position text member
    rw [Bool.eq_false_iff]
    intro surrounded
    obtain before | ⟨statement, folded⟩ := prepared_or_folded member
    · cases prepared_of_mem before with
      | insertion anchor =>
          obtain rfl | ⟨first, first_eq, rfl⟩ | ⟨statement, in_body, inner, below, rfl⟩ := anchor
          · exact Nat.not_lt_zero _ (surrounds_iff.1 surrounded).1
          · have behind := (apart line listed).2 first first_eq
            exact Nat.not_lt.2 behind (surrounds_iff.1 surrounded).1
          · have outside := not_holds_start spaced apart listed in_body below
            exact Bool.false_ne_true (outside.symm.trans (holds_of_surrounds surrounded))
    · obtain ⟨_, _, -, -, edit_eq, -⟩ := folded.body spaced.row
      contradiction
  case targets =>
    intro body removed target suffix member
    obtain before | ⟨statement, folded⟩ := prepared_or_folded member
    · have none_removed := (prepared_of_mem before).removed?_eq_none
      contradiction
    · obtain ⟨_, variable_, -, known, edit_eq, -⟩ := folded.body spaced.row
      obtain ⟨-, -, rfl, -⟩ := Edit.move.inj edit_eq
      obtain ⟨declaration, in_body, declared⟩ := List.mem_filterMap.1 known
      obtain ⟨returns, span_eq, below⟩ := StaticMember.exists_return declared
      rw [← span_eq]
      exact not_holds_start spaced apart listed in_body below.mem_nodes

/-- The lines may be left out further. -/
theorem further_mapLines (spares : SparesHelpers script selection) :
    Meaning.Further script.text.toList (edits script selection).edits
      ((mapLines script.text).map Match.span) := by
  have scans := Pattern.scans_findAll MapComment.advances_pattern script.text.toList
  have found (line : Match) (listed : line ∈ mapLines script.text) := scans.matched line listed
  constructor
  case tidy => exact tidy_edits spaced spares
  case proper => exact isProper_of_mem_mapLines script.text
  case boundaries =>
    rw [List.forall_mem_map]
    intro line listed
    obtain ⟨matched, text_eq⟩ := found line listed
    have boundaries := Pattern.isBoundary_of_matchAt? matched
    rwa [text_eq] at boundaries
  case apart => exact List.pairwise_map.2 scans.ordered
  case untouched =>
    rw [List.forall_mem_map]
    exact fun line listed => isUntouched spaced apart listed

/-- What is rendered with a map is what is rendered without one less the lines. -/
theorem leavesOut_rendering (spares : SparesHelpers script selection) :
    LeavesOut ((mapLines script.text).map Match.text)
      (rendering script selection false).text.toList
      (rendering script selection true).text.toList := by
  have more := further_mapLines spaced apart spares
  have recorded : MapComment.record script.text (edits script selection) =
      ⟨Meaning.withRemovals (edits script selection).edits
        ((mapLines script.text).map Match.span)⟩ := record_eq more.proper
  have plain_eq : (rendering script selection false).text.toList =
      Meaning.text script.text.toList (edits script selection).edits :=
    more.tidy.chunksOf_standFor.merge.text_eq
  have mapped_eq : (rendering script selection true).text.toList = Meaning.text script.text.toList
      (Meaning.withRemovals (edits script selection).edits
        ((mapLines script.text).map Match.span)) := by
    rw [rendering, if_pos rfl, recorded]
    exact more.tidy_withRemovals.chunksOf_standFor.merge.text_eq
  rw [plain_eq, mapped_eq]
  exact Meaning.leavesOut_text MapComment.advances_pattern more

end Spaced

end Optimize

/-- A line that names a map between two statements, the first of which is cut. -/
def interleaved : String :=
  "C.ctorParameters = function () \x7b\x7d;\n//# sourceMappingURL=a.js.map\nvar b = 1;\n"

/-- The kinds of all trees of the program that a text stands for. -/
def kindsOf (text : String) : Option (List NodeKind) :=
  (Program.read text).toOption.map fun program => (program.body.flatMap Node.nodes).map Node.kind

/-- A template with a line that names a map. -/
def quoting : String :=
  "var t = \x60\n//# sourceMappingURL=a.js.map\n\x60;\nC.ctorParameters = function () \x7b\x7d;\n"

end Shakedown
