import Shakedown.Batch
import Shakedown.Proofs.FileTree
import Shakedown.Proofs.Path

/-!
# Where results go

The result for a script stands beside it, and so does the map of the result. Their names end in ways
in which no name of a script ends, and different scripts have different results. So scripts, results
and maps never meet, whatever names the files of a tree have.
-/

namespace Shakedown

/-- Whether the paths of all files are made of names. -/
def FileTree.IsNamed (tree : FileTree) : Prop :=
  ∀ file ∈ tree.files, ∀ name ∈ file.1, Path.IsName name

instance (tree : FileTree) : Decidable tree.IsNamed :=
  inferInstanceAs (Decidable (∀ _ ∈ _, _))

namespace Batch

open Path

/-- Where the result for a script and the map of the result go. -/
def outputs (path : String) : List Location :=
  match outputPath path optimizedMark with
  | .ok output => [components output, components (mapPath output)]
  | .error _ => []

/-- Whether a name is one of a script and not of a result. -/
def isScriptName (name : String) : Bool :=
  hasEnding name ".js" && !hasEnding name (optimizedMark ++ ".js")

/-! ## Endings -/

theorem hasEnding_iff {name ending : String} :
    hasEnding name ending ↔ ending.toList <:+ name.toList := by
  rw [hasEnding, Text.endsWith, List.isPrefixOf_iff_prefix, List.reverse_prefix]

theorem hasEnding_append (front ending : String) : hasEnding (front ++ ending) ending :=
  hasEnding_iff.2 (by simp)

/-- Of two endings of a name the shorter one ends the longer one. -/
theorem suffix_of_hasEnding {name ending other : String} (ends : hasEnding name ending)
    (alsoEnds : hasEnding name other) (shorter : ending.length ≤ other.length) :
    ending.toList <:+ other.toList :=
  List.suffix_of_suffix_length_le (hasEnding_iff.1 ends) (hasEnding_iff.1 alsoEnds)
    (by rwa [String.length_toList, String.length_toList])

theorem not_hasEnding_mapPath (output : String) : ¬hasEnding (mapPath output) ".js" := fun ends =>
  absurd (suffix_of_hasEnding ends (hasEnding_append output ".map") (by decide)) (by decide)

theorem isScriptName_mapPath (output : String) : isScriptName (mapPath output) = false := by
  simp [isScriptName, not_hasEnding_mapPath]

theorem mapPath_injective {output other : String} (same : mapPath output = mapPath other) :
    output = other :=
  (String.append_left_inj _).1 same

/-- The name of the result for a script. -/
def resultName (stem : String) : String :=
  stem ++ (optimizedMark ++ ".js")

theorem resultName_injective {stem other : String} (same : resultName stem = resultName other) :
    stem = other :=
  (String.append_left_inj _).1 same

theorem hasEnding_resultName (stem : String) : hasEnding (resultName stem) ".js" := by
  rw [resultName, ← String.append_assoc]
  exact hasEnding_append _ _

theorem isScriptName_resultName (stem : String) : isScriptName (resultName stem) = false := by
  simp [isScriptName, resultName, hasEnding_append]

/-- A name of a script ends in `.js`. -/
theorem ending_eq_of_isScriptName {stem ending : String} (script : isScriptName (stem ++ ending))
    (short : ending.length = 3) : ending = ".js" := by
  obtain ⟨ends, -⟩ := Bool.and_eq_true_iff.1 script
  have inside := suffix_of_hasEnding (hasEnding_append stem ending) ends (by rw [short]; decide)
  exact String.toList_inj.1 (inside.eq_of_length (by rw [String.length_toList, short]; rfl))

theorem isName_of_length {chars : List Char} (plain : '/' ∉ chars) (long : 1 < chars.length) :
    IsName (String.ofList chars) where
  plain := by simpa using plain
  filled := by
    intro same
    have chars_eq : chars = [] := by simpa using congrArg String.toList same
    simp [chars_eq] at long
  noDot := by
    intro same
    have chars_eq : chars = ['.'] := by simpa using congrArg String.toList same
    simp [chars_eq] at long

/-! ## The path of a result -/

theorem exists_ending_of_isScriptPath {path : String} (script : isScriptPath path) :
    ∃ body ending : List Char, path.toList = body ++ ending ∧ ending.length = 3 ∧ '/' ∉ ending := by
  obtain js | ts := Bool.or_eq_true_iff.1 script
  · obtain ⟨body, body_eq⟩ := hasEnding_iff.1 js
    exact ⟨body, ".js".toList, body_eq.symm, rfl, by decide⟩
  · obtain ⟨body, body_eq⟩ := hasEnding_iff.1 ts
    exact ⟨body, ".ts".toList, body_eq.symm, rfl, by decide⟩

/-- The result for a script stands beside it, with a longer name, and so does the map. -/
theorem exists_stem {path output suffix : String} (plain : '/' ∉ suffix.toList)
    (named : outputPath path suffix = .ok output) :
    ∃ above stem ending, ending.length = 3 ∧ components path = above ++ [stem ++ ending] ∧
      components output = above ++ [stem ++ (suffix ++ ending)] ∧
      components (mapPath output) = above ++ [mapPath (stem ++ (suffix ++ ending))] := by
  unfold outputPath checkInput at named
  split at named
  case isFalse => contradiction
  case isTrue script =>
    obtain ⟨body, ending, path_eq, short, plainEnding⟩ := exists_ending_of_isScriptPath script
    obtain ⟨front, last, above, rfl, plainLast, components_eq⟩ := exists_lastPart body
    have behind {rest : List Char} (plain : '/' ∉ rest) (long : 1 < rest.length) :
        components (String.ofList (front ++ rest)) = above ++ [String.ofList rest] := by
      rw [components_eq, components_name (isName_of_length plain long)]
    have output_eq : output = String.ofList (front ++ (last ++ (suffix.toList ++ ending))) := by
      have length_eq : path.toList.length - 3 = (front ++ last).length := by
        rw [path_eq, List.length_append, short, Nat.add_sub_cancel]
      obtain rfl := Except.ok.inj named
      rw [length_eq, path_eq, List.take_left, List.drop_left, List.append_assoc,
        List.append_assoc]
    have map_eq : mapPath output =
        String.ofList (front ++ (last ++ (suffix.toList ++ ending) ++ ".map".toList)) := by
      rw [output_eq, mapPath, ← String.toList_inj]
      simp
    refine ⟨above, String.ofList last, String.ofList ending, by simpa using short, ?_, ?_, ?_⟩
    · rw [← @String.ofList_toList path, path_eq, List.append_assoc, behind]
      · simp
      · simp [plainLast, plainEnding]
      · simp [short]
    · rw [output_eq, behind]
      · simp
      · simp [plainLast, plain, plainEnding]
      · simp [short]
        omega
    · rw [map_eq, behind]
      · simp [mapPath, String.append_assoc]
      · simp [plainLast, plain, plainEnding]
      · simp [short]
        omega

/-- A script whose path is accepted has its result and the map of the result beside it. -/
theorem outputs_eq {path name : String} {above : Location}
    (placed : components path = above ++ [name]) (script : isScriptName name) :
    outputs path = [] ∨ ∃ stem, name = stem ++ ".js" ∧
      outputs path = [above ++ [resultName stem], above ++ [mapPath (resultName stem)]] := by
  unfold outputs
  split
  case h_2 => exact .inl rfl
  case h_1 output named =>
    obtain ⟨also, stem, ending, short, path_eq, output_eq, map_eq⟩ :=
      exists_stem (by decide) named
    obtain ⟨rfl, name_eq⟩ := List.append_inj' (placed.symm.trans path_eq) rfl
    obtain rfl : name = stem ++ ending := by simpa using name_eq
    obtain rfl := ending_eq_of_isScriptName script short
    exact .inr ⟨stem, rfl, by rw [output_eq, map_eq, resultName]⟩

/-! ## Scripts below a directory -/

theorem components_join {base : String} {rest : Location} (named : ∀ name ∈ rest, IsName name) :
    components (join base rest) = components base ++ rest := by
  cases rest with
  | nil => exact (List.append_nil _).symm
  | cons first others =>
      unfold join
      dsimp only
      conv => rhs; rw [← components_intercalate named]
      generalize "/".intercalate (first :: others) = text
      split
      case isTrue slashed =>
        obtain ⟨front, base_eq⟩ := hasEnding_iff.1 slashed
        have joined_eq : (base ++ text).toList = front ++ '/' :: text.toList := by
          simp [← base_eq]
        rw [components_of_slash joined_eq, components_of_slash base_eq.symm, String.ofList_toList]
        exact congrArg (· ++ components text) (List.append_nil _).symm
      case isFalse =>
        have joined_eq : (base ++ "/" ++ text).toList = base.toList ++ '/' :: text.toList := by
          simp
        rw [components_of_slash joined_eq, String.ofList_toList, String.ofList_toList]

variable {directory path other : String} {tree : FileTree}

/-- A script is judged by the last component of its path. -/
theorem getLast?_of_isScriptName {rest : Location}
    (script : isScriptName (nameBelow directory rest)) :
    (components directory ++ rest).getLast? = some (nameBelow directory rest) := by
  unfold nameBelow at script ⊢
  split at script
  case h_1 name last => rw [List.getLast?_append, last, Option.some_or]
  case h_2 none_last =>
    obtain rfl := List.getLast?_eq_none_iff.1 none_last
    unfold fileName? at script ⊢
    rw [List.append_nil]
    split at script
    case h_1 => exact absurd script (by decide)
    case h_2 =>
      cases last : (components directory).getLast? with
      | none => rw [last] at script; exact absurd script (by decide)
      | some name => rfl

/-- A script that is found stands at a place below the directory and has the name of a script. -/
theorem exists_place (named : tree.IsNamed) (found : path ∈ scripts directory tree) :
    ∃ rest, path = join directory rest ∧ components path = components directory ++ rest ∧
      ∃ above name, components path = above ++ [name] ∧ isScriptName name := by
  unfold scripts filesBelow at found
  split at found
  case isTrue => simp at found
  case isFalse =>
    obtain ⟨rest, listed, rfl⟩ := List.mem_map.1 found
    obtain ⟨below, accepted⟩ := List.mem_filter.1 listed
    obtain ⟨⟨location, bytes⟩, file, rest_eq⟩ := List.mem_filterMap.1 below
    dsimp only at rest_eq
    split at rest_eq
    case isFalse => simp at rest_eq
    case isTrue inside =>
      obtain ⟨rest, rfl⟩ := List.isPrefixOf_iff_prefix.1 inside
      obtain rfl : rest = _ := by simpa using rest_eq
      have place : components (join directory rest) = components directory ++ rest :=
        components_join fun name listed => named _ file name (List.mem_append_right _ listed)
      have last := getLast?_of_isScriptName accepted
      rw [← place] at last
      exact ⟨rest, rfl, place, _, _, (List.dropLast_append_getLast? _ last).symm, accepted⟩

/-- Scripts at one place are one script. -/
theorem eq_of_components_eq (named : tree.IsNamed) (found : path ∈ scripts directory tree)
    (alsoFound : other ∈ scripts directory tree) (same : components path = components other) :
    path = other := by
  obtain ⟨rest, rfl, place, -⟩ := exists_place named found
  obtain ⟨more, rfl, otherPlace, -⟩ := exists_place named alsoFound
  rw [place, otherPlace] at same
  rw [List.append_cancel_left same]

/-! ## Scripts, results and maps -/

variable {location : Location} {name : String} {above : Location}

/-- The name of a result or map is none of a script. -/
theorem exists_name_of_mem_outputs (named : tree.IsNamed) (found : path ∈ scripts directory tree)
    (written : location ∈ outputs path) :
    ∃ above name, location = above ++ [name] ∧ isScriptName name = false := by
  obtain ⟨-, -, -, above, name, placed, script⟩ := exists_place named found
  obtain none_written | ⟨stem, -, outputs_eq⟩ := outputs_eq placed script
  · simp [none_written] at written
  · rw [outputs_eq, List.mem_pair] at written
    obtain rfl | rfl := written
    · exact ⟨above, _, rfl, isScriptName_resultName stem⟩
    · exact ⟨above, _, rfl, isScriptName_mapPath _⟩

/-- No script stands where a result or map goes. -/
theorem components_notMem_outputs (named : tree.IsNamed) (found : path ∈ scripts directory tree)
    (alsoFound : other ∈ scripts directory tree) : components path ∉ outputs other := by
  intro written
  obtain ⟨-, -, -, above, name, placed, script⟩ := exists_place named found
  obtain ⟨also, result, place, noScript⟩ := exists_name_of_mem_outputs named alsoFound written
  obtain ⟨-, name_eq⟩ := List.append_inj' (placed.symm.trans place) rfl
  obtain rfl : name = result := by simpa using name_eq
  rw [script] at noScript
  contradiction

/-- The map of a result goes to a place of its own. -/
theorem nodup_outputs (named : tree.IsNamed) (found : path ∈ scripts directory tree) :
    (outputs path).Nodup := by
  obtain ⟨-, -, -, above, name, placed, script⟩ := exists_place named found
  obtain none_written | ⟨stem, -, outputs_eq⟩ := outputs_eq placed script
  · simp [none_written]
  · rw [outputs_eq, List.nodup_cons, List.mem_singleton]
    refine ⟨fun same => not_hasEnding_mapPath (resultName stem) ?_, List.nodup_singleton _⟩
    obtain ⟨-, name_eq⟩ := List.append_inj' same rfl
    have same_name : resultName stem = mapPath (resultName stem) := by simpa using name_eq
    exact same_name ▸ hasEnding_resultName stem

/-- Different scripts have different results and maps, and no map goes where a result goes. -/
theorem disjoint_outputs (named : tree.IsNamed) (found : path ∈ scripts directory tree)
    (alsoFound : other ∈ scripts directory tree) (different : path ≠ other) :
    (outputs path).Disjoint (outputs other) := by
  obtain ⟨-, -, -, above, name, placed, script⟩ := exists_place named found
  obtain ⟨-, -, -, also, otherName, otherPlaced, otherScript⟩ := exists_place named alsoFound
  obtain none_written | ⟨stem, rfl, outputs_eq⟩ := outputs_eq placed script
  · simp [none_written]
  obtain none_written | ⟨otherStem, rfl, otherOutputs_eq⟩ :=
    Batch.outputs_eq otherPlaced otherScript
  · simp [none_written]
  -- scripts with the same result beside them have the same path
  have apart (same : above = also) : resultName stem ≠ resultName otherStem := by
    intro sameResult
    refine different (eq_of_components_eq named found alsoFound ?_)
    rw [placed, otherPlaced, same, resultName_injective sameResult]
  rw [outputs_eq, otherOutputs_eq]
  intro location written alsoWritten
  rw [List.mem_pair] at written alsoWritten
  have names_eq {left right : String} (here : location = above ++ [left])
      (there : location = also ++ [right]) : above = also ∧ left = right := by
    obtain ⟨same, names⟩ := List.append_inj' (here.symm.trans there) rfl
    exact ⟨same, by simpa using names⟩
  obtain here | here := written <;> obtain there | there := alsoWritten <;>
    obtain ⟨same, sameName⟩ := names_eq here there
  · exact apart same sameName
  · exact not_hasEnding_mapPath _ (sameName ▸ hasEnding_resultName stem)
  · exact not_hasEnding_mapPath _ (sameName ▸ hasEnding_resultName otherStem)
  · exact apart same (mapPath_injective sameName)

/-- What is put where no script can stand adds none. -/
theorem scripts_put (placed : location = above ++ [name]) (noScript : isScriptName name = false)
    (directory : String) (tree : FileTree) (bytes : List UInt8) :
    scripts directory (tree.put location bytes) = scripts directory tree := by
  unfold scripts filesBelow
  split
  case isTrue => rfl
  case isFalse =>
    dsimp only
    congr 1
    rw [FileTree.below, FileTree.below, List.filter_filterMap, List.filter_filterMap]
    refine FileTree.filterMap_place (fun _ => ?_) bytes tree.files
    dsimp only
    split
    case isFalse => rfl
    case isTrue inside =>
      obtain ⟨rest, location_eq⟩ := List.isPrefixOf_iff_prefix.1 inside
      have rejected : isScriptName (nameBelow directory rest) = false := by
        refine Bool.eq_false_iff.2 fun script => ?_
        have last := getLast?_of_isScriptName script
        rw [location_eq, placed, List.getLast?_concat] at last
        rw [Option.some.inj last, script] at noScript
        contradiction
      rw [← location_eq, List.drop_left]
      exact Option.filter_eq_none_iff.2 fun found same => by
        obtain rfl := Option.some.inj same
        exact Bool.eq_false_iff.1 rejected

theorem scripts_putAll {puts : List (Location × List UInt8)}
    (noScripts : ∀ location ∈ puts.map (·.1),
      ∃ above name, location = above ++ [name] ∧ isScriptName name = false)
    (directory : String) (tree : FileTree) :
    scripts directory (tree.putAll puts) = scripts directory tree := by
  induction puts generalizing tree with
  | nil => rfl
  | cons file puts ih =>
      obtain ⟨⟨above, name, placed, noScript⟩, others⟩ := List.forall_mem_cons.1 noScripts
      rw [FileTree.putAll_cons, ih others, scripts_put placed noScript]

end Batch
end Shakedown
