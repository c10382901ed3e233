import Mathlib.Data.List.Sort
import Shakedown.Pass.PureCall
import Shakedown.Proofs.Bundle.Manifest
import Shakedown.Proofs.Pass.HelperMeaning

/-!
# The order of a manifest

A manifest lists the modules that a program imports bindings from when its helpers are imported.
The program is not rewritten for that: the imports and the places of the helpers are collected
apart, and sorted by their offsets. Since statements stand one behind the other in a text, sorting
brings them in the order in which they would be met in the rewritten program.
-/

namespace Shakedown

open Node

variable {statement : Node} {script again : Script}

/-! ## Statements in order -/

/-- Each statement starts behind the start of the one before. -/
def IsAscending (statements : List Node) : Prop :=
  statements.Pairwise fun first second => first.span.start < second.span.start

/-- The statements of a script that was read are in order. -/
theorem Script.isAscending_of_read {text file : String} (read : Script.read text file = .ok script) :
    IsAscending script.program.body := by
  have row := (Script.isSpaced_of_read read).row
  refine row.ordered.imp_of_mem fun {first second} listed _ behind => ?_
  exact Nat.lt_of_lt_of_le (row.spaced first listed).proper behind

namespace HelperImport

/-- Whether importing helpers records edits for a statement. -/
def rewrites (statement : Node) : Bool :=
  !(replace Revision.empty statement).edits.isEmpty

theorem rewrites_eq_isSome (statement : Node) : rewrites statement = (helper? statement).isSome := by
  unfold rewrites replace
  cases helper? statement <;> simp [Revision.insert, Revision.record, Revision.empty]

@[simp]
theorem span_imported (statement : Node) : (imported statement).span = statement.span := by
  unfold imported
  split <;> rfl

theorem isAscending_importedBody (ascending : IsAscending script.program.body) :
    IsAscending (importedBody script) :=
  List.pairwise_map.2 (by simpa only [span_imported, IsAscending] using ascending)

end HelperImport

namespace PureCall

open HelperImport

/-- The token that a statement adds to the manifest: that of the module that it imports bindings
from, or the library of the helpers where the statement is rewritten. -/
def listedToken? (statement : Node) : Option String :=
  match importedModule? statement with
  | some (_, token) => some token
  | none => if rewrites statement then some libraryName else none

/-! ## Imports and helpers -/

theorem token_libraryName : Manifest.token libraryName = libraryName := by
  decide

theorem importedModule?_of_helper {name : String} (helper : helper? statement = some name) :
    importedModule? statement = none := by
  obtain ⟨form, span, inner, written, place, children, values, rfl, -, -⟩ :=
    exists_of_helper? helper
  rfl

theorem fst_of_importedModule? {entry : Nat × String}
    (found : importedModule? statement = some entry) : entry.1 = statement.span.start := by
  unfold importedModule? at found
  split at found
  · exact (Option.some.inj found) ▸ rfl
  · contradiction

theorem listedToken?_of_helper {name : String} (helper : helper? statement = some name) :
    listedToken? statement = some libraryName := by
  have rewritten : rewrites statement := by rw [rewrites_eq_isSome, helper]; rfl
  rw [listedToken?, importedModule?_of_helper helper]
  exact if_pos rewritten

/-- A statement that is no helper is listed where it imports bindings. -/
theorem importedModule?_of_plain (plain : helper? statement = none) :
    importedModule? statement =
      (listedToken? statement).map fun token => (statement.span.start, token) := by
  cases found : importedModule? statement with
  | none => simp [listedToken?, found, rewrites_eq_isSome, plain]
  | some entry =>
      rw [listedToken?, found, ← fst_of_importedModule? found]
      rfl

/-- When the helpers are imported, a statement imports bindings from the module that it lists. -/
theorem importedModule?_imported (statement : Node) :
    importedModule? (imported statement) =
      (listedToken? statement).map fun token => (statement.span.start, token) := by
  cases helper : helper? statement with
  | none => rw [imported_of_none helper, importedModule?_of_plain helper]
  | some name =>
      rw [listedToken?_of_helper helper]
      obtain ⟨form, span, inner, written, place, children, values, statement_eq, -, -⟩ :=
        exists_of_helper? helper
      rw [imported_of_helper? statement_eq helper, statement_eq, Option.map_some,
        ← token_libraryName]
      rfl

/-! ## Sorting -/

/-- The offsets and tokens of the statements that are listed, one behind the other. -/
def entries (statements : List Node) : List (Nat × String) :=
  statements.filterMap fun statement =>
    (listedToken? statement).map fun token => (statement.span.start, token)

theorem entries_cons_none {rest : List Node} (unlisted : listedToken? statement = none) :
    entries (statement :: rest) = entries rest :=
  List.filterMap_cons_none (by rw [unlisted]; rfl)

theorem entries_cons_some {rest : List Node} {token : String}
    (listed : listedToken? statement = some token) :
    entries (statement :: rest) = (statement.span.start, token) :: entries rest :=
  List.filterMap_cons_some (by rw [listed]; rfl)

theorem map_entries (statements : List Node) :
    (entries statements).map (·.2) = statements.filterMap listedToken? := by
  simp [entries, List.map_filterMap, Option.map_map, Function.comp_def]

theorem filterMap_imported (statements : List Node) :
    (statements.map imported).filterMap importedModule? = entries statements := by
  rw [List.filterMap_map]
  exact List.filterMap_congr fun statement _ => importedModule?_imported statement

/-- Imports and helpers that are collected apart are the entries in another order. -/
theorem perm_entries (statements : List Node) :
    (statements.filterMap importedModule? ++
      (statements.filter fun statement => (helper? statement).isSome).map
        fun statement => (statement.span.start, libraryName)).Perm (entries statements) := by
  induction statements with
  | nil => exact .refl _
  | cons statement rest ih =>
      cases helper : helper? statement with
      | some name =>
          rw [List.filter_cons_of_pos (by rw [helper]; rfl),
            List.filterMap_cons_none (importedModule?_of_helper helper),
            entries_cons_some (listedToken?_of_helper helper)]
          -- the first helper stands behind the imports that come after it in the text
          exact List.perm_middle.trans (ih.cons _)
      | none =>
          have plain := importedModule?_of_plain helper
          rw [List.filter_cons_of_neg (by simp [helper])]
          cases listed : listedToken? statement with
          | none =>
              rw [List.filterMap_cons_none (by rw [plain, listed]; rfl), entries_cons_none listed]
              exact ih
          | some token =>
              rw [List.filterMap_cons_some (by rw [plain, listed]; rfl), entries_cons_some listed]
              exact ih.cons _

/-- Entries with the offsets of statements in order have offsets that ascend. -/
theorem pairwise_filterMap {statements : List Node} {found? : Node → Option (Nat × String)}
    (at_start : ∀ statement entry, found? statement = some entry →
      entry.1 = statement.span.start)
    (ascending : IsAscending statements) :
    (statements.filterMap found?).Pairwise fun first second => first.1 < second.1 := by
  refine ascending.filterMap _ fun first second before entry found other other_found => ?_
  rw [at_start first entry found, at_start second other other_found]
  exact before

theorem pairwise_entries {statements : List Node} (ascending : IsAscending statements) :
    (entries statements).Pairwise fun first second => first.1 < second.1 := by
  refine pairwise_filterMap (fun statement entry found => ?_) ascending
  obtain ⟨token, -, rfl⟩ := Option.map_eq_some_iff.1 found
  rfl

/-- Sorting has one outcome when no offset is repeated. -/
theorem mergeSort_eq_of_perm {found sorted : List (Nat × String)} (perm : found.Perm sorted)
    (ascending : sorted.Pairwise fun first second => first.1 < second.1) :
    (found.mergeSort fun left right => left.1 ≤ right.1) = sorted := by
  have offsets_nodup : (sorted.map (·.1)).Nodup :=
    List.pairwise_map.2 (ascending.imp Nat.ne_of_lt)
  have in_order : (found.mergeSort fun left right => left.1 ≤ right.1).Pairwise
      fun left right => left.1 ≤ right.1 :=
    (List.pairwise_mergeSort (fun _ _ _ => by simpa using Nat.le_trans)
      (fun left right => by simpa using Nat.le_total left.1 right.1) found).imp of_decide_eq_true
  refine ((List.mergeSort_perm _ _).trans perm).eq_of_pairwise ?_ in_order
    (ascending.imp Nat.le_of_lt)
  intro left right left_listed right_listed below above
  have left_listed : left ∈ sorted := perm.subset (List.mem_mergeSort.1 left_listed)
  exact List.inj_on_of_nodup_map offsets_nodup left_listed right_listed
    (Nat.le_antisymm below above)

/-- The tokens of a program are those that are met in the order of the offsets, each once. -/
theorem importTokens_eq {program : Program} {positions : List Nat} {sorted : List (Nat × String)}
    (perm : (program.body.filterMap importedModule? ++
      positions.map fun position => (position, libraryName)).Perm sorted)
    (ascending : sorted.Pairwise fun first second => first.1 < second.1) :
    importTokens program positions = (sorted.map (·.2)).eraseDups := by
  rw [importTokens, token_libraryName, mergeSort_eq_of_perm perm ascending,
    Manifest.distinct_eq_eraseDups]

theorem importTokens_nil {program : Program} (ascending : IsAscending program.body) :
    importTokens program [] =
      ((program.body.filterMap importedModule?).map (·.2)).eraseDups := by
  refine importTokens_eq ?_ (pairwise_filterMap (fun _ _ => fst_of_importedModule?) ascending)
  rw [List.map_nil, List.append_nil]

theorem importTokens_positions (ascending : IsAscending script.program.body) :
    importTokens script.program (HelperImport.positions script) =
      (script.program.body.filterMap listedToken?).eraseDups := by
  rw [← map_entries]
  refine importTokens_eq ?_ (pairwise_entries ascending)
  rw [HelperImport.positions, List.map_map]
  exact perm_entries script.program.body

/-- The manifest of a program whose helpers are imported lists what its statements list, one behind
the other and each token once. These are the modules that the program imports bindings from when
each helper is replaced by its import. -/
theorem importTokens_eq_walk (ascending : IsAscending script.program.body) :
    importTokens script.program (HelperImport.positions script) =
        (script.program.body.filterMap listedToken?).eraseDups ∧
      importTokens script.program (HelperImport.positions script) =
        importTokens { script.program with body := importedBody script } [] := by
  have walked := importTokens_positions ascending
  refine ⟨walked, walked.trans ?_⟩
  rw [importTokens_nil (isAscending_importedBody ascending), importedBody, filterMap_imported,
    map_entries]

/-- Helpers between imports, and modules that are imported again. -/
def mixedImports : String :=
  "import \x7b a \x7d from \"@x/y\";var __extends=f;import \"z\";import b from \"tslib\";" ++
    "var ___param=g;import * as c from \"@x/y\";import \x7b d \x7d from \"w-v\";"

/-- The helpers list their library once, where the first of them stands. -/
theorem importTokens_mixedImports : ∃ script, Script.read mixedImports "a.js" = .ok script ∧
    IsAscending script.program.body ∧
    importTokens script.program (HelperImport.positions script) = ["_x_y", "tslib", "w_v"] := by
  have lists : (Script.read mixedImports "a.js").toOption.any fun script =>
      (script.program.body.filterMap listedToken?).eraseDups = ["_x_y", "tslib", "w_v"] := by
    decide +kernel
  obtain ⟨script, found, lists⟩ := (Option.any_eq_true _ _).1 lists
  have read : Script.read mixedImports "a.js" = .ok script := Except.eq_ok_of_toOption found
  have ascending := Script.isAscending_of_read read
  exact ⟨script, read, ascending,
    (importTokens_eq_walk ascending).1.trans (of_decide_eq_true lists)⟩

/-! ## The rewritten text -/

theorem token_of_mirrors {position : Nat → Nat} {image : Node}
    (mirrored : mirrors position statement image) :
    (importedModule? image).map (·.2) = (importedModule? statement).map (·.2) := by
  obtain ⟨kind, span, children⟩ := statement
  obtain ⟨other, place, others⟩ := image
  simp only [mirrors, Bool.and_eq_true, beq_iff_eq] at mirrored
  obtain rfl := mirrored.1.1
  cases kind <;> try rfl
  rename_i source phase hasClause
  cases hasClause <;> rfl

theorem tokens_of_mirrorsAll {position : Nat → Nat} {statements images : List Node}
    (mirrored : mirrorsAll position statements images) :
    (images.filterMap importedModule?).map (·.2) =
      (statements.filterMap importedModule?).map (·.2) := by
  simp only [List.map_filterMap]
  induction statements generalizing images with
  | nil => rw [mirrorsAll_nil.1 mirrored]
  | cons statement rest ih =>
      obtain ⟨image, others, rfl, alike, rest_alike⟩ := mirrorsAll_cons.1 mirrored
      rw [List.filterMap_cons, List.filterMap_cons, token_of_mirrors alike, ih rest_alike]

/-- A text with all helpers imported that is read again gets the manifest of the text before. -/
theorem importTokens_again {position : Nat → Nat} (is_imported : IsImported script again position)
    (ascending : IsAscending script.program.body) (again_ascending : IsAscending again.program.body) :
    importTokens again.program [] =
      importTokens script.program (HelperImport.positions script) := by
  rw [importTokens_nil again_ascending, importTokens_positions ascending,
    tokens_of_mirrorsAll is_imported.mirrored, importedBody, filterMap_imported, map_entries]

end PureCall
end Shakedown
