import Shakedown.Proofs.Edit.Words
import Shakedown.Proofs.Module.Output
import Shakedown.Proofs.Module.Tidiness
import Shakedown.Proofs.Pass.HelperMeaning
import Shakedown.Proofs.Pass.TopLevelCalls

/-!
# Running again

A second run reads what the first one returned. It leaves a text alone in which no pass finds
anything to do. A text whose helpers alone were imported is such a text, if it is read back as the
statements that importing makes: the imports are no helpers, and no mark comes about where they are
put in.
-/

namespace Shakedown

open Node Text Span

namespace Optimize

variable {script again : Script} {selection : Selection} {content : String} {options : Options}
  {once : Output}

/-! ## Scripts that are settled -/

/-- The selected passes find nothing to do. -/
structure IsSettled (script : Script) (selection : Selection) : Prop where
  /-- No statement declares a helper. -/
  helpers : selection.helpers → ∀ statement ∈ script.program.body,
    HelperImport.helper? statement = none
  /-- Every call at the top level has its marker. -/
  marked : selection.metadata → PureCall.unmarked script = []
  /-- There is a manifest. -/
  manifest : selection.metadata → PureCall.beginsWithManifest script
  /-- No metadata is left that goes. -/
  metadata : selection.metadata →
    Metadata.cuts script (Framework.symbols script) = Metadata.Cuts.none
  /-- No member is assigned outside of its class. -/
  members : selection.metadata → ∀ statement ∈ script.program.body,
    (StaticMember.foldable? script.scoping (StaticMember.classes script) statement).isNone

instance (script : Script) (selection : Selection) : Decidable (IsSettled script selection) :=
  decidable_of_iff
    ((selection.helpers → ∀ statement ∈ script.program.body,
        HelperImport.helper? statement = none) ∧
      (selection.metadata → PureCall.unmarked script = []) ∧
      (selection.metadata → PureCall.beginsWithManifest script) ∧
      (selection.metadata →
        Metadata.cuts script (Framework.symbols script) = Metadata.Cuts.none) ∧
      (selection.metadata → ∀ statement ∈ script.program.body,
        (StaticMember.foldable? script.scoping (StaticMember.classes script) statement).isNone))
    ⟨fun ⟨helpers, marked, manifest, metadata, members⟩ =>
        ⟨helpers, marked, manifest, metadata, members⟩,
      fun settled => ⟨settled.helpers, settled.marked, settled.manifest, settled.metadata,
        settled.members⟩⟩

/-- Steps that record nothing leave the record as it is. -/
theorem foldl_eq_self {Item : Type} {step : Revision → Item → Revision} {revision : Revision}
    {items : List Item} (still : ∀ item ∈ items, step revision item = revision) :
    items.foldl step revision = revision := by
  induction items with
  | nil => rfl
  | cons item rest ih =>
      rw [List.foldl_cons, still item List.mem_cons_self]
      exact ih fun other listed => still other (List.mem_cons_of_mem _ listed)

/-- Nothing is recorded for a script that is settled. -/
theorem IsSettled.edits_eq_empty (settled : IsSettled script selection) :
    edits script selection = Revision.empty := by
  have imports : selection.helpers →
      HelperImport.record script Revision.empty = Revision.empty := by
    intro helpers
    refine foldl_eq_self fun statement listed => ?_
    rw [HelperImport.replace, settled.helpers helpers statement listed]
  have imported_eq : imported script selection.helpers = Revision.empty := by
    unfold imported
    split
    · exact imports ‹_›
    · rfl
  rw [edits_eq]
  unfold prepared
  split
  · rename_i metadata
    have scrubbed_eq : scrubbed script selection.helpers = Revision.empty := by
      rw [scrubbed, imported_eq, PureCall.record, settled.marked metadata,
        PureCall.recordManifest, if_pos (settled.manifest metadata), settled.metadata metadata]
      rfl
    rw [scrubbed_eq]
    refine foldl_eq_self fun statement listed => ?_
    rw [StaticMember.move, Option.isNone_iff_eq_none.1 (settled.members metadata statement listed)]
  · exact imported_eq

theorem text_render_empty (text : String) : (Revision.empty.render text).text = text := by
  have tidy : Meaning.Tidy text.toList [] := by constructor <;> simp [Meaning.gaps]
  have text_eq : Meaning.text text.toList [] = text.toList := by
    have read_eq : Meaning.read (Meaning.gaps []) (Meaning.put text.toList []) 0 text.toList =
        text.toList := Meaning.read_eq_self fun _ _ _ => ⟨rfl, rfl⟩
    rw [Meaning.text, read_eq]
    exact List.append_nil _
  exact String.toList_inj.1 (tidy.chunksOf_standFor.merge.text_eq.trans text_eq)

/-- A run leaves a text alone that is read as a settled script, or that cannot be read. -/
theorem optimize_eq_unchanged (lenient : options.strict = false) (mapless : options.emitMap = false)
    (settled : ∀ script, Script.read content options.label = .ok script →
      IsSettled script (Selection.ofText content)) :
    optimize content options = .ok (unchanged content options) := by
  unfold optimize
  dsimp only
  split
  · split
    · rename_i output changed
      obtain ⟨script, read, -, rfl⟩ := changed_eq_ok_iff.1 changed
      have text_eq : (rendering script (Selection.ofText content) false).text = content := by
        rw [rendering, if_neg Bool.false_ne_true, (settled script read).edits_eq_empty,
          text_render_empty, Script.text_of_read read]
      simp [outputOf, unchanged, mapless, text_eq]
    · rw [lenient, if_neg Bool.false_ne_true]
  · rfl

/-- A run without a map returns what it renders, if that can be read. -/
theorem optimize_eq_of_render {text : String} (mapless : options.emitMap = false)
    (asked : (Selection.ofText content).any)
    (read : Script.read content options.label = .ok script)
    (rendered : ((edits script (Selection.ofText content)).render content).text = text)
    (checked : Script.check text options.label = .ok ()) :
    optimize content options = .ok ⟨text, none⟩ := by
  have rendering_eq : (rendering script (Selection.ofText content) options.emitMap).text = text := by
    rw [rendering, mapless, if_neg Bool.false_ne_true, Script.text_of_read read, rendered]
  have changed : changed content (Selection.ofText content) options = .ok ⟨text, none⟩ := by
    refine changed_eq_ok_iff.2 ⟨script, read, rendering_eq ▸ checked, ?_⟩
    rw [outputOf, if_neg (by simp [mapless]), rendering_eq]
  rw [optimize]
  simp only [asked, changed, if_true]

/-! ## Texts with imported helpers -/

/-- Helpers alone were imported, and the text is read back as the statements that importing makes. -/
def ImportsAlone (content : String) (options : Options) (again : Script) : Prop :=
  (Selection.ofText content).metadata = false ∧ ∃ script position,
    Script.read content options.label = .ok script ∧
      HelperImport.IsImported script again position

end Optimize

namespace HelperImport

variable {script again : Script} {position : Nat → Nat}

/-- The originals of some trees begin with the original of the first. -/
theorem exists_cons_of_mirrorsAll {nodes others : List Node} {image : Node}
    (mirrored : mirrorsAll position nodes (image :: others)) :
    ∃ node rest, nodes = node :: rest ∧ mirrors position node image ∧
      mirrorsAll position rest others := by
  cases nodes with
  | nil => cases mirrorsAll_nil.1 mirrored
  | cons node rest =>
      obtain ⟨_, _, same, first, behind⟩ := mirrorsAll_cons.1 mirrored
      obtain ⟨rfl, rfl⟩ := List.cons.inj same
      exact ⟨node, rest, rfl, first, behind⟩

/-- What is read as a helper was one. -/
theorem helper?_of_image {statement image : Node} {name : String}
    (mirrored : mirrors position statement image) (found : helper? image = some name) :
    helper? statement = some name := by
  obtain ⟨form, _, _, written, _, _, _, rfl, name_eq, known⟩ := exists_of_helper? found
  obtain ⟨kind, _, parts⟩ := statement
  obtain ⟨_, _, same, -, below⟩ := mirrors_mk.1 mirrored
  obtain ⟨rfl, -, rfl⟩ := Node.mk.inj same
  obtain ⟨⟨kind, _, parts⟩, rest, rfl, declarator, behind⟩ := exists_cons_of_mirrorsAll below
  obtain ⟨_, _, same, -, below⟩ := mirrors_mk.1 declarator
  obtain ⟨rfl, -, rfl⟩ := Node.mk.inj same
  obtain ⟨⟨kind, _, parts⟩, _, rfl, binding, -⟩ := exists_cons_of_mirrorsAll below
  obtain ⟨_, _, same, -, -⟩ := mirrors_mk.1 binding
  obtain ⟨rfl, -, -⟩ := Node.mk.inj same
  cases rest with
  | nil => simp [helper?, ← name_eq, known]
  | cons other rest =>
      obtain ⟨_, _, same, -⟩ := mirrorsAll_cons.1 behind
      contradiction

theorem helper?_imported (statement : Node) : helper? (imported statement) = none := by
  cases found : helper? statement with
  | none => rw [imported_of_none found, found]
  | some name =>
      obtain ⟨_, _, _, _, _, _, _, statement_eq, -, -⟩ := exists_of_helper? found
      rw [imported_of_helper? statement_eq found]
      rfl

theorem exists_original {nodes images : List Node} (mirrored : mirrorsAll position nodes images)
    {image : Node} (listed : image ∈ images) : ∃ node ∈ nodes, mirrors position node image := by
  induction nodes generalizing images with
  | nil => rw [mirrorsAll_nil.1 mirrored] at listed; contradiction
  | cons node rest ih =>
      obtain ⟨first, others, rfl, first_mirrored, behind⟩ := mirrorsAll_cons.1 mirrored
      obtain rfl | listed := List.mem_cons.1 listed
      · exact ⟨node, List.mem_cons_self, first_mirrored⟩
      · obtain ⟨other, among, other_mirrored⟩ := ih behind listed
        exact ⟨other, List.mem_cons_of_mem _ among, other_mirrored⟩

/-- Where all helpers are imported no statement declares one. -/
theorem IsImported.helper?_eq_none (is_imported : IsImported script again position) {image : Node}
    (listed : image ∈ again.program.body) : helper? image = none := by
  obtain ⟨node, among, mirrored⟩ := exists_original is_imported.mirrored listed
  obtain ⟨statement, -, rfl⟩ := List.mem_map.1 among
  cases found : helper? image with
  | none => rfl
  | some name => cases (helper?_of_image mirrored found).symm.trans (helper?_imported statement)

theorem mem_edits_foldl_replace {revision : Revision} {edit : Edit}
    (member : edit ∈ revision.edits) (statements : List Node) :
    edit ∈ (statements.foldl replace revision).edits := by
  induction statements generalizing revision with
  | nil => exact member
  | cons statement rest ih =>
      refine ih ?_
      unfold replace
      split
      · exact member
      · exact List.mem_append_left _ (Revision.mem_edits_remove_of_mem member)

/-- Importing alone removes helpers and inserts their imports. -/
theorem exists_helper_of_mem {edit : Edit} (member : edit ∈ (record script Revision.empty).edits) :
    ∃ statement ∈ script.program.body, ∃ name, helper? statement = some name ∧
      (edit = .remove statement.span ∨
        edit = .insert statement.span.start (importText name)) :=
  (mem_edits_record member).resolve_left List.not_mem_nil

/-- The import of every helper is recorded. -/
theorem insert_mem_record {statement : Node} {name : String}
    (listed : statement ∈ script.program.body) (found : helper? statement = some name)
    (revision : Revision) :
    .insert statement.span.start (importText name) ∈ (record script revision).edits := by
  obtain ⟨front, back, body_eq⟩ := List.append_of_mem listed
  rw [record, body_eq, List.foldl_append, List.foldl_cons, replace, found]
  exact mem_edits_foldl_replace (List.mem_append_right _ List.mem_cons_self) back

end HelperImport

namespace Optimize

section Marks

variable {mark text file name : String}

/-- A text asks for the passes behind metadata when a mark stands in it. -/
theorem metadata_iff : (Selection.ofText text).metadata ↔
    ∃ mark ∈ Selection.metadataMarks, mark.toList <:+: text.toList := by
  simp [Selection.ofText, occurs_iff]

theorem filled_of_mem_metadataMarks (listed : mark ∈ Selection.metadataMarks) :
    mark.toList ≠ [] := by
  have each : ∀ mark ∈ Selection.metadataMarks, mark.toList ≠ [] := by decide
  exact each mark listed

/-- No mark of metadata reaches into an import. -/
theorem parts_importText (listed : mark ∈ Selection.metadataMarks)
    (known : name ∈ HelperImport.helperNames) :
    Parts mark.toList (HelperImport.importText name).toList := by
  have text_eq : (HelperImport.importText name).toList =
      'i' :: ("mport \x7b ".toList ++ name.toList ++ " \x7d from \"tslib\"".toList ++ [';']) := by
    simp [HelperImport.importText, HelperImport.libraryName]
  rw [text_eq]
  have each : ∀ mark ∈ Selection.metadataMarks, ∀ name ∈ HelperImport.helperNames,
      'i' ∉ mark.toList ∧ ';' ∉ mark.toList ∧ ¬mark.toList <:+:
        "mport \x7b ".toList ++ name.toList ++ " \x7d from \"tslib\"".toList := by
    decide +kernel
  obtain ⟨opens, closes, outside⟩ := each mark listed name known
  exact parts_of_ends opens closes outside

/-- No mark of metadata reaches into what importing puts anywhere. -/
theorem parts_put_import (listed : mark ∈ Selection.metadataMarks) (script : Script)
    (source : List Char) (offset : Nat) :
    Meaning.put source (HelperImport.record script Revision.empty).edits offset = [] ∨
      Parts mark.toList
        (Meaning.put source (HelperImport.record script Revision.empty).edits offset) := by
  refine parts_flatMap (filled_of_mem_metadataMarks listed) fun edit member => ?_
  obtain ⟨_, _, name, found, rfl | rfl⟩ := HelperImport.exists_helper_of_mem member
  · exact .inl rfl
  · obtain ⟨_, _, _, _, _, _, _, -, -, known⟩ := HelperImport.exists_of_helper? found
    dsimp only [Meaning.contribution]
    split
    · exact .inr (parts_importText listed known)
    · exact .inl rfl

variable {script : Script} (spaced : script.program.IsSpaced script.text.toList)

include spaced

/-- The import of a helper stays where the helper stood. -/
theorem stays_import {statement : Node} (listed : statement ∈ script.program.body) :
    Meaning.stays (HelperImport.record script Revision.empty).edits statement.span.start := by
  have row := spaced.row
  have clear : (Meaning.gaps (HelperImport.record script Revision.empty).edits).any
      (·.surrounds statement.span.start) = false := by
    rw [List.any_eq_false]
    intro gap among surrounded
    obtain ⟨⟨edit, member, gap_eq⟩, -⟩ := Meaning.mem_gaps_iff.1 among
    obtain ⟨other, also_listed, _, -, rfl | rfl⟩ := HelperImport.exists_helper_of_mem member
    · obtain rfl := Option.some.inj gap_eq
      obtain rfl | apart := eq_or_gaps_apart row also_listed listed
      · rw [surrounds_iff] at surrounded
        omega
      · exact not_isApart_of_holds
          (holds_of_covers (gap_covers_span row also_listed) (holds_of_surrounds surrounded))
          (gap_holds_start row listed (mem_nodes.2 (.inl rfl))) apart
    · contradiction
  have none_along : (HelperImport.record script Revision.empty).edits.any
      (Edit.takesAlong statement.span.start) = false := by
    rw [List.any_eq_false]
    intro edit member
    obtain ⟨_, _, _, -, rfl | rfl⟩ := HelperImport.exists_helper_of_mem member
    · exact Bool.false_ne_true
    · exact Bool.false_ne_true
  rw [Meaning.stays, clear, none_along]
  rfl

/-- What importing leaves out begins with an import. -/
theorem put_gap_ne_nil {gap : Span}
    (among : gap ∈ Meaning.gaps (HelperImport.record script Revision.empty).edits) :
    Meaning.put script.text.toList (HelperImport.record script Revision.empty).edits gap.start ≠
      [] := by
  obtain ⟨⟨edit, member, gap_eq⟩, -⟩ := Meaning.mem_gaps_iff.1 among
  obtain ⟨statement, listed, name, found, rfl | rfl⟩ := HelperImport.exists_helper_of_mem member
  · obtain rfl := Option.some.inj gap_eq
    intro none
    have nothing := List.flatMap_eq_nil_iff.1 none _
      (HelperImport.insert_mem_record listed found Revision.empty)
    simp [Meaning.contribution, stays_import spaced listed, HelperImport.importText] at nothing
  · contradiction

/-- Importing helpers makes no marks of metadata. -/
theorem metadata_imported (unmarked : (Selection.ofText script.text).metadata = false) :
    (Selection.ofText
      ((HelperImport.record script Revision.empty).render script.text).text).metadata = false := by
  have all_tidy : Meaning.Tidy script.text.toList (edits script ⟨true, false⟩).edits :=
    tidy_edits spaced fun _ metadata => nomatch metadata
  have tidy : Meaning.Tidy script.text.toList (HelperImport.record script Revision.empty).edits :=
    all_tidy
  have boundaries {gap : Span}
      (among : gap ∈ Meaning.gaps (HelperImport.record script Revision.empty).edits) :
      IsBoundary script.text.toList gap.start := by
    obtain ⟨⟨edit, member, gap_eq⟩, -⟩ := Meaning.mem_gaps_iff.1 among
    exact tidy.boundaries edit member _ (by cases edit <;> simp_all [Edit.gap?, Edit.offsets])
  rw [← Bool.not_eq_true, metadata_iff] at unmarked ⊢
  rintro ⟨mark, listed, stands⟩
  have text_eq : ((HelperImport.record script Revision.empty).render script.text).text.toList =
      Meaning.text script.text.toList (HelperImport.record script Revision.empty).edits :=
    tidy.chunksOf_standFor.merge.text_eq
  rw [text_eq] at stands
  exact unmarked ⟨mark, listed, Meaning.infix_of_infix_text (filled_of_mem_metadataMarks listed)
    (parts_put_import listed script _) (fun _ among => boundaries among)
    (fun _ among => put_gap_ne_nil spaced among) stands⟩

end Marks

/-- A text whose helpers alone were imported is settled when it is read back as such. -/
theorem isSettled_of_isImported {script again : Script} {position : Nat → Nat}
    {text file : String} (read : Script.read text file = .ok script)
    (unmarked : (Selection.ofText text).metadata = false)
    (is_imported : HelperImport.IsImported script again position) :
    IsSettled again
      (Selection.ofText ((edits script (Selection.ofText text)).render text).text) := by
  have spaced := Script.isSpaced_of_read read
  obtain rfl := Script.text_of_read read
  have edits_eq : edits script (Selection.ofText script.text) =
      imported script (Selection.ofText script.text).helpers := by
    rw [edits_eq, prepared, unmarked, if_neg Bool.false_ne_true, if_neg Bool.false_ne_true]
  have still_unmarked : (Selection.ofText
      ((edits script (Selection.ofText script.text)).render script.text).text).metadata =
        false := by
    rw [edits_eq, imported]
    split
    · exact metadata_imported spaced unmarked
    · rw [text_render_empty, unmarked]
  constructor
  case helpers => exact fun _ statement listed => is_imported.helper?_eq_none listed
  all_goals
    exact fun marked => absurd (still_unmarked.symm.trans marked) Bool.false_ne_true

/-- Two helpers, one in a comment, and a call. -/
def settling : String :=
  "var __param = f;g();//decorators var __extends = h"

/-- The text with the helper imported and the call marked. -/
def settled : String :=
  "/** PURE_IMPORTS_START tslib PURE_IMPORTS_END */\n" ++
    "import \x7b __param \x7d from \"tslib\";/*@__PURE__*/ g();//decorators var __extends = h"

/-- A helper, with the mark of another one that stays. -/
def importing : String :=
  "var __param = f;//var __extends = h"

/-- The text with the helper imported. -/
def importingOnce : String :=
  "import \x7b __param \x7d from \"tslib\";//var __extends = h"

/-- A list of applied decorators that are called: one that goes and, behind a marker, one that
stays. -/
def twoDecorators : String :=
  "/*PURE_IMPORTS_START*/import\x7bPipe\x7dfrom'@angular/core';import\x7b__decorate\x7dfrom'tslib';" ++
    "A=__decorate([Pipe(),/*@__PURE__*/decorators()],A)"

/-- The text with the list shortened. -/
def oneDecorator : String :=
  "/*PURE_IMPORTS_START*/import\x7bPipe\x7dfrom'@angular/core';import\x7b__decorate\x7dfrom'tslib';" ++
    "A=/*@__PURE__*/ __decorate([decorators()],A)"

/-- The text with a marker for the call that is left in the list. -/
def markedDecorator : String :=
  "/*PURE_IMPORTS_START*/import\x7bPipe\x7dfrom'@angular/core';import\x7b__decorate\x7dfrom'tslib';" ++
    "A=/*@__PURE__*/ __decorate([/*@__PURE__*/ decorators()],A)"

end Optimize
end Shakedown
