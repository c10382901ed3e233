import Shakedown.Pass.PureCall
import Shakedown.Proofs.Edit.Recording
import Shakedown.Proofs.Script.Program
import Shakedown.Proofs.Script.Skipping

/-!
# Markers stand where trees begin

Marking only inserts: a marker where a call or construction begins, or the parenthesis around one,
and the manifest in front of the program. Both are whole comments, for no token of a manifest holds a
slash that could close the comment early.
-/

namespace Shakedown

namespace Manifest

/-- Characters that a token spells otherwise do not stand in it. -/
theorem notMem_token {char : Char} (replaced : char = '/' ∨ char = '@' ∨ char = '-')
    (specifier : String) : char ∉ (token specifier).toList := by
  rw [token, String.toList_ofList, List.mem_map]
  rintro ⟨other, -, same⟩
  unfold tokenChar at same
  split at same
  · subst same
    exact absurd replaced (by decide)
  · rename_i kept
    exact kept (same ▸ replaced)

theorem notMem_intercalate {char : Char} {tokens : List String} (no_comma : char ≠ ',')
    (plain : ∀ token ∈ tokens, char ∉ token.toList) :
    char ∉ [','].intercalate (tokens.map String.toList) := by
  induction tokens with
  | nil => exact List.not_mem_nil
  | cons first rest ih =>
      obtain ⟨first_plain, rest_plain⟩ := List.forall_mem_cons.1 plain
      cases rest with
      | nil => simpa [List.intercalate] using first_plain
      | cons second others =>
          have others_plain := ih rest_plain
          simp only [List.map_cons] at others_plain
          simp [List.intercalate_cons_cons, first_plain, others_plain, no_comma]

theorem comment_eq_remark (tokens : List String) : (comment tokens).toList =
    Lexer.remark ("* PURE_IMPORTS_START ".toList ++
      [','].intercalate (tokens.map String.toList) ++ " PURE_IMPORTS_END ".toList) := by
  simp [comment, openWord, closeWord, Lexer.remark]

/-- A manifest of tokens without slashes is a single comment. -/
theorem skips_comment {tokens : List String} (plain : ∀ token ∈ tokens, '/' ∉ token.toList) :
    ∃ ends, Lexer.Skips (comment tokens).toList ends := by
  have listed := notMem_intercalate (by decide) plain
  refine ⟨_, comment_eq_remark tokens ▸ Lexer.skips_remark ?_⟩
  simp only [List.mem_append, not_or]
  exact ⟨⟨by decide, listed⟩, by decide⟩

/-- A manifest of tokens without at signs has none. -/
theorem at_notMem_comment {tokens : List String} (plain : ∀ token ∈ tokens, '@' ∉ token.toList) :
    '@' ∉ (comment tokens).toList := by
  have listed := notMem_intercalate (by decide) plain
  rw [comment_eq_remark, Lexer.remark]
  simp only [List.cons_append, List.mem_cons, List.mem_append, not_or]
  exact ⟨by decide, by decide, ⟨⟨by decide, listed⟩, by decide⟩, by decide⟩

end Manifest

namespace PureCall

open Node Text

variable {script : Script} {revision : Revision} {edit : Edit}

theorem mem_startsOfList {nodes : List Node} {position : Nat} :
    position ∈ startsOfList nodes ↔ ∃ node ∈ nodes, position ∈ starts node := by
  induction nodes with
  | nil => simp [startsOfList]
  | cons node rest ih => simp [startsOfList, ih]

/-- A marker belongs to the start of a node. -/
theorem mem_starts (node : Node) :
    (∀ position ∈ starts node, ∃ inner ∈ node.nodes, position = inner.span.start) ∧
      ∀ child ∈ node.children, ∀ position ∈ starts child,
        ∃ inner ∈ child.nodes, position = inner.span.start := by
  -- the call in parentheses is passed over, so the claim is carried for two levels
  induction node using Node.induction with
  | step kind span children ih =>
      refine ⟨fun position member => ?_, fun child listed => (ih child listed).1⟩
      have own : ∃ inner ∈ (Node.mk kind span children).nodes, span.start = inner.span.start :=
        ⟨_, mem_nodes.2 (.inl rfl), rfl⟩
      have of_children (member : position ∈ startsOfList children) :
          ∃ inner ∈ (Node.mk kind span children).nodes, position = inner.span.start := by
        obtain ⟨child, listed, member⟩ := mem_startsOfList.1 member
        obtain ⟨inner, below, same⟩ := (ih child listed).1 position member
        exact ⟨inner, mem_nodes.2 (.inr ⟨child, listed, below⟩), same⟩
      unfold starts at member
      split at member
      · contradiction
      · contradiction
      · rename_i isOptional callSpan callee inputs node_eq
        obtain ⟨rfl, rfl, rfl⟩ := Node.mk.inj node_eq
        have call_below : Node.mk (.call isOptional) callSpan (callee :: inputs) ∈
            (Node.mk .parenthesized span [.mk (.call isOptional) callSpan (callee :: inputs)]).nodes :=
          mem_nodes.2 (.inr ⟨_, List.mem_cons_self, mem_nodes.2 (.inl rfl)⟩)
        obtain rfl | member := List.mem_cons.1 member
        · split
          · exact own
          · exact ⟨_, call_below, rfl⟩
        · have in_parts : position ∈ startsOfList (callee :: inputs) := member
          obtain ⟨part, listed, member⟩ := mem_startsOfList.1 in_parts
          obtain ⟨inner, below, same⟩ := (ih _ List.mem_cons_self).2 part listed position member
          have in_call : inner ∈ (Node.mk (.call isOptional) callSpan (callee :: inputs)).nodes :=
            mem_nodes.2 (.inr ⟨part, listed, below⟩)
          exact ⟨inner, mem_nodes_trans in_call call_below, same⟩
      · rename_i node_eq
        obtain ⟨rfl, rfl, rfl⟩ := Node.mk.inj node_eq
        obtain rfl | member := List.mem_cons.1 member
        · exact own
        · exact of_children member
      · rename_i node_eq
        obtain ⟨rfl, rfl, rfl⟩ := Node.mk.inj node_eq
        obtain rfl | member := List.mem_cons.1 member
        · exact own
        · exact of_children member
      · rename_i node_eq
        obtain ⟨rfl, rfl, rfl⟩ := Node.mk.inj node_eq
        exact of_children member

theorem mem_dropEqualNeighbours {values : List Nat} {value : Nat} :
    value ∈ dropEqualNeighbours values ↔ value ∈ values := by
  induction values using dropEqualNeighbours.induct with
  | case1 => rfl
  | case2 => rfl
  | case3 first rest ih => rw [dropEqualNeighbours, if_pos rfl, ih]; simp
  | case4 first second rest different ih =>
      rw [dropEqualNeighbours, if_neg different, List.mem_cons, ih, ← List.mem_cons]

theorem mem_positions {program : Program} {position : Nat} :
    position ∈ positions program ↔ ∃ statement ∈ program.body, position ∈ starts statement := by
  rw [positions, mem_dropEqualNeighbours, List.mem_mergeSort, mem_startsOfList]

/-- Where a program may be inserted into: in front of it, behind the line that names an interpreter,
or where a tree begins. -/
def IsAnchor (script : Script) (position : Nat) : Prop :=
  position = 0 ∨ (∃ line, script.program.hashbang = some line ∧ position = line.stop) ∨
    ∃ statement ∈ script.program.body, ∃ inner ∈ statement.nodes, position = inner.span.start

theorem isAnchor_of_mem_unmarked {position : Nat} (member : position ∈ unmarked script) :
    IsAnchor script position := by
  obtain ⟨statement, in_body, member⟩ := mem_positions.1 (List.mem_filter.1 member).1
  obtain ⟨inner, below, same⟩ := (mem_starts statement).1 position member
  exact .inr (.inr ⟨statement, in_body, inner, below, same⟩)

/-- The edit inserts, at an anchor, what is skipped where a token may begin. -/
def IsRemark (script : Script) (edit : Edit) : Prop :=
  ∃ position text, edit = .insert position text ∧ IsAnchor script position ∧
    ∃ ends, Lexer.Skips text.toList ends

theorem skips_marker : Lexer.Skips (Marker.pure ++ " ").toList false :=
  (Lexer.skips_remark (by decide : '/' ∉ "@__PURE__".toList)).append
    (.blank (by decide) (by decide))

/-- What a manifest lists are tokens. -/
theorem exists_token {program : Program} {helperPositions : List Nat} {token : String}
    (member : token ∈ importTokens program helperPositions) :
    ∃ specifier, token = Manifest.token specifier := by
  obtain ⟨⟨position, token⟩, listed, rfl⟩ := List.mem_map.1 (Manifest.mem_of_mem_distinct member)
  obtain imported | helper := List.mem_append.1 (List.mem_mergeSort.1 listed)
  · obtain ⟨statement, -, import_eq⟩ := List.mem_filterMap.1 imported
    unfold importedModule? at import_eq
    split at import_eq
    · obtain ⟨-, rfl⟩ := Prod.mk.inj (Option.some.inj import_eq)
      exact ⟨_, rfl⟩
    · contradiction
  · obtain ⟨place, -, same⟩ := List.mem_map.1 helper
    obtain ⟨-, rfl⟩ := Prod.mk.inj same
    exact ⟨_, rfl⟩

theorem skips_manifest (program : Program) (helperPositions : List Nat) :
    ∃ ends, Lexer.Skips (Manifest.comment (importTokens program helperPositions)).toList ends := by
  refine Manifest.skips_comment fun token member => ?_
  obtain ⟨specifier, rfl⟩ := exists_token member
  exact Manifest.notMem_token (.inl rfl) specifier

theorem at_notMem_manifest (program : Program) (helperPositions : List Nat) :
    '@' ∉ (Manifest.comment (importTokens program helperPositions)).toList := by
  refine Manifest.at_notMem_comment fun token member => ?_
  obtain ⟨specifier, rfl⟩ := exists_token member
  exact Manifest.notMem_token (.inr (.inl rfl)) specifier

/-- Marking adds remarks only. -/
theorem mem_edits_record {helperPositions : List Nat}
    (member : edit ∈ (record script helperPositions revision).edits) :
    edit ∈ revision.edits ∨ IsRemark script edit := by
  have marked {edit : Edit} (member : edit ∈ ((unmarked script).foldl
      (fun revision position => revision.insert position (Marker.pure ++ " ")) revision).edits) :
      edit ∈ revision.edits ∨ IsRemark script edit := by
    obtain before | ⟨position, listed, added⟩ := Revision.mem_edits_foldl
      (fun position edit => edit = .insert position (Marker.pure ++ " "))
      (fun _ _ _ => Revision.mem_edits_insert) member
    · exact .inl before
    · exact .inr ⟨position, _, added, isAnchor_of_mem_unmarked listed, _, skips_marker⟩
  obtain ⟨ends, skips⟩ := skips_manifest script.program helperPositions
  have line_end : Lexer.Skips ['\n'] true := .lineEnd (by decide)
  unfold record recordManifest at member
  split at member
  · exact marked member
  · split at member
    · rename_i line line_eq
      obtain before | added := Revision.mem_edits_insert member
      · exact marked before
      · exact .inr ⟨line.stop, _, added, .inr (.inl ⟨line, line_eq, rfl⟩), _,
          by simpa using line_end.append skips⟩
    · obtain before | added := Revision.mem_edits_insertFirst member
      · exact marked before
      · exact .inr ⟨0, _, added, .inl rfl, _, by simpa using skips.append line_end⟩

/-- An anchor is a boundary of the text. -/
theorem IsAnchor.isBoundary {text : List Char} {position : Nat} (anchor : IsAnchor script position)
    (spaced : script.program.IsSpaced text) : IsBoundary text position := by
  obtain rfl | ⟨line, line_eq, rfl⟩ | ⟨statement, listed, inner, below, rfl⟩ := anchor
  · exact (leftAt_zero text).isBoundary
  · exact spaced.hashbang line line_eq
  · exact ((spaced.row.spaced statement listed) inner below).framed.begins.isBoundary

end PureCall
end Shakedown
