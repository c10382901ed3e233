import Shakedown.Proofs.Cache.Entry
import Shakedown.Proofs.Module.Output

/-!
# What a key tells apart

The digest of an entry is that of one text: the text of the module, a character for each flag, and
the two paths, each with a zero behind it. Nothing stands between the text and the flags, and an
absent path is written like an empty one. So different options have one key when a path is absent
in one of them and empty in the other, or when control characters of a path pass for what divides
the parts. Without such characters the key determines the text, the flags and the paths, up to
whether they are present; that matters to the names that an outcome carries, and to nothing else.
-/

namespace Shakedown

/-! ## Names in outcomes -/

namespace Options

/-- Options that differ at most in whether their empty paths are present. -/
structure Agrees (options other : Options) : Prop where
  /-- Both ask for a map, or none of them. -/
  emitMap : options.emitMap = other.emitMap
  /-- Both are strict, or none of them. -/
  strict : options.strict = other.strict
  /-- The input paths are the same as texts. -/
  input : options.inputPath.getD "" = other.inputPath.getD ""
  /-- The output paths are the same as texts. -/
  output : options.outputPath.getD "" = other.outputPath.getD ""

/-- An outcome with the names that options give. -/
def rename (options : Options) : Except Failure Output → Except Failure Output
  | .ok output => .ok
      { output with
        map := output.map.map fun map => { map with sources := [options.mapSource] } }
  | .error failure => .error { failure with file := options.label }

variable {options other : Options}

theorem Agrees.refl (options : Options) : options.Agrees options :=
  ⟨rfl, rfl, rfl, rfl⟩

theorem mapFile_eq (options : Options) :
    options.mapFile = (Path.fileName? (options.outputPath.getD "")).getD "" := by
  unfold mapFile
  cases options.outputPath <;> rfl

theorem Agrees.mapFile (agrees : options.Agrees other) : options.mapFile = other.mapFile := by
  rw [mapFile_eq, mapFile_eq, agrees.output]

/-- A text is labelled as the other one unless one of both has no path. -/
theorem Agrees.label_eq_iff (agrees : options.Agrees other) :
    options.label = other.label ↔ options.inputPath.isSome = other.inputPath.isSome := by
  have same := agrees.input
  unfold label
  cases input : options.inputPath <;> cases other_input : other.inputPath <;> simp_all

/-- A source that has a name has it in both maps unless one of the results has no path. -/
theorem Agrees.mapSource_eq_iff (agrees : options.Agrees other) :
    options.mapSource = other.mapSource ↔
      (options.inputPath.getD "" ≠ "" → options.outputPath.isSome = other.outputPath.isSome) := by
  have same := agrees.input
  unfold mapSource
  cases input : options.inputPath <;> cases other_input : other.inputPath <;>
    cases output : options.outputPath <;> cases other_output : other.outputPath <;>
    simp_all [eq_comm]

end Options

namespace Optimize

variable {options other : Options}

theorem read_label (text file label : String) :
    Script.read text label = (Script.read text file).mapError fun failure =>
      { failure with file := label } := by
  unfold Script.read
  cases Program.read text <;> rfl

theorem check_label (text file label : String) :
    Script.check text label = (Script.check text file).mapError fun failure =>
      { failure with file := label } := by
  unfold Script.check
  cases Program.read text <;> rfl

theorem unchanged_of_agrees (agrees : options.Agrees other) (text : String) :
    .ok (unchanged text other) = other.rename (.ok (unchanged text options)) := by
  simp only [unchanged, Options.rename, ← agrees.emitMap, ← agrees.mapFile]
  cases options.emitMap <;> rfl

theorem outputOf_of_agrees (agrees : options.Agrees other) (text : String) (rendering : Rendering) :
    .ok (outputOf text other rendering) = other.rename (.ok (outputOf text options rendering)) := by
  simp only [outputOf, Options.rename, ← agrees.emitMap, ← agrees.mapFile]
  cases options.emitMap <;> rfl

theorem changed_of_agrees (agrees : options.Agrees other) (text : String) (selection : Selection) :
    changed text selection other = other.rename (changed text selection options) := by
  rw [changed_eq, changed_eq, read_label text options.label other.label, ← agrees.emitMap]
  cases Script.read text options.label with
  | error failure => rfl
  | ok script =>
      simp only [Except.mapError, Except.bind]
      rw [check_label _ options.label other.label]
      cases Script.check (rendering script selection options.emitMap).text options.label with
      | error failure => rfl
      | ok => exact outputOf_of_agrees agrees text _

end Optimize

/-- Runs with options that agree differ at most in the names that their outcomes carry. -/
theorem optimize_of_agrees {options other : Options} (agrees : options.Agrees other)
    (text : String) : optimize text other = other.rename (optimize text options) := by
  unfold optimize
  dsimp only
  rw [Optimize.changed_of_agrees agrees, ← agrees.strict]
  split
  · cases Optimize.changed text (Selection.ofText text) options with
    | ok output => rfl
    | error failure =>
        cases options.strict with
        | true => rfl
        | false => exact Optimize.unchanged_of_agrees agrees text
  · exact Optimize.unchanged_of_agrees agrees text

theorem isSome_map_of_optimize {text : String} {options : Options} {output : Output}
    (optimized : optimize text options = .ok output) : output.map.isSome = options.emitMap := by
  obtain rfl | changed := unchanged_or_changed optimized
  · unfold Optimize.unchanged
    cases options.emitMap <;> rfl
  · obtain ⟨script, -, -, rfl⟩ := Optimize.changed_eq_ok_iff.1 changed
    unfold Optimize.outputOf
    cases options.emitMap <;> rfl

/-- Options that agree lead to one outcome if a map, or a failure, carries the same name. -/
theorem optimize_eq_iff_of_agrees {options other : Options} (agrees : options.Agrees other)
    (text : String) : optimize text options = optimize text other ↔
      match optimize text options with
      | .ok _ => options.emitMap → options.mapSource = other.mapSource
      | .error _ => options.label = other.label := by
  have named := optimize_of_agrees (.refl options) text
  rw [optimize_of_agrees agrees text]
  cases optimized : optimize text options with
  | error failure =>
      rw [optimized] at named
      have file_eq : failure.file = options.label := congrArg Failure.file (Except.error.inj named)
      obtain ⟨cause, file, place, diagnostics⟩ := failure
      obtain rfl : file = options.label := file_eq
      simp [Options.rename]
  | ok output =>
      rw [optimized] at named
      have mapped := isSome_map_of_optimize optimized
      obtain ⟨content, map⟩ := output
      cases map with
      | none => simp [Options.rename, ← mapped]
      | some map =>
          obtain ⟨version, file, sourceRoot, sources, contents, names, mappings⟩ := map
          obtain rfl : sources = [options.mapSource] := by simpa [Options.rename] using named
          simp [Options.rename, ← mapped]

/-! ## Dividing the text that is hashed -/

namespace Cache

/-- The character of a flag. -/
def flagChar (flag : Bool) : Char :=
  if flag then '\x01' else '\x00'

/-- What is hashed, as characters. -/
def keyChars (text : String) (options : Options) : List Char :=
  text.toList ++ [flagChar options.emitMap, flagChar options.strict] ++
    (options.inputPath.getD "").toList ++
    '\x00' :: ((options.outputPath.getD "").toList ++ ['\x00'])

theorem encodeChar_flagChar (flag : Bool) :
    String.utf8EncodeChar (flagChar flag) = [flagByte flag] := by
  cases flag <;> decide

theorem keyBytes_eq_bytesOf (text : String) (options : Options) :
    keyBytes text options = FileTree.bytesOf (String.ofList (keyChars text options)) := by
  have zero_eq : String.utf8EncodeChar '\x00' = [0] := by decide
  simp only [keyBytes, pathBytes, keyChars, bytesOf_eq, String.toList_ofList, Text.bytesOf_append,
    Text.bytesOf_cons, Text.bytesOf_nil, encodeChar_flagChar, zero_eq, List.append_assoc,
    List.cons_append, List.nil_append, List.append_nil]

theorem keyBytes_eq_iff {text text' : String} {options options' : Options} :
    keyBytes text options = keyBytes text' options' ↔
      keyChars text options = keyChars text' options' := by
  rw [keyBytes_eq_bytesOf, keyBytes_eq_bytesOf]
  constructor
  · exact fun same => String.ofList_injective (bytesOf_injective same)
  · exact fun same => by rw [same]

theorem flagChar_eq_of_ne_zero {flag : Bool} (nonzero : flagChar flag ≠ '\x00') :
    flagChar flag = '\x01' := by
  cases flag
  · exact absurd rfl nonzero
  · rfl

theorem flagChar_injective {flag flag' : Bool} (same : flagChar flag = flagChar flag') :
    flag = flag' := by
  revert same
  cases flag <;> cases flag' <;> decide

/-- No path holds a zero, and no part of an input path can be taken for flags in front of the rest:
two characters of value one do not meet there, the one in front of the path counted in. -/
structure IsPlain (options : Options) : Prop where
  /-- The input path holds no zero. -/
  input : '\x00' ∉ (options.inputPath.getD "").toList
  /-- The output path holds no zero. -/
  output : '\x00' ∉ (options.outputPath.getD "").toList
  /-- No part of the input path can be taken for flags. -/
  apart : ¬['\x01', '\x01'] <:+: '\x01' :: (options.inputPath.getD "").toList

/-- Flags do not end inside a path where they are not taken for a part of it. -/
theorem eq_nil_of_flags {front front' reach rest : List Char} {first second : Bool}
    (nonzero : '\x00' ∉ reach ++ rest)
    (apart : ¬['\x01', '\x01'] <:+: '\x01' :: (reach ++ rest))
    (same : front' ++ [flagChar first, flagChar second] = front ++ reach) : reach = [] := by
  obtain rfl | ⟨begun, last, rfl⟩ := List.eq_nil_or_concat' reach
  · rfl
  refine absurd ?_ apart
  have flag {char : Char} {flag : Bool} (member : char ∈ begun ++ [last])
      (char_eq : flagChar flag = char) : char = '\x01' := by
    rw [← char_eq]
    refine flagChar_eq_of_ne_zero fun zero => nonzero ?_
    rw [← zero, char_eq]
    exact List.mem_append_left _ member
  have divided : (front' ++ [flagChar first]) ++ [flagChar second] = (front ++ begun) ++ [last] := by
    simpa using same
  obtain ⟨fronts, lasts⟩ := List.append_inj' divided rfl
  obtain rfl : last = '\x01' := flag (by simp) (List.singleton_inj.1 lasts)
  -- in front of the second flag stands the first one, or the path begins
  obtain rfl | ⟨others, char, rfl⟩ := List.eq_nil_or_concat' begun
  · exact ⟨[], rest, by simp⟩
  · have divided : front' ++ [flagChar first] = (front ++ others) ++ [char] := by
      simpa using fronts
    obtain ⟨-, chars⟩ := List.append_inj' divided rfl
    obtain rfl : char = '\x01' := flag (by simp) (List.singleton_inj.1 chars)
    exact ⟨'\x01' :: others, rest, by simp⟩

/-- The key determines the text, the flags, and the paths as texts. -/
theorem agrees_of_keyBytes {text text' : String} {options options' : Options}
    (plain : IsPlain options) (plain' : IsPlain options')
    (same : keyBytes text options = keyBytes text' options') :
    text = text' ∧ options.Agrees options' := by
  have chars := keyBytes_eq_iff.1 same
  unfold keyChars at chars
  rw [← List.cons_append, ← List.append_assoc, ← List.cons_append, ← List.append_assoc] at chars
  obtain ⟨ended, -⟩ := List.append_inj' chars rfl
  obtain ⟨fronts, outputs⟩ := append_cons_inj_last plain.output plain'.output ended
  -- where one input path began earlier, the flags in front of the other would end in it
  obtain ⟨fronts, inputs⟩ : text.toList ++ [flagChar options.emitMap, flagChar options.strict] =
      text'.toList ++ [flagChar options'.emitMap, flagChar options'.strict] ∧
        (options.inputPath.getD "").toList = (options'.inputPath.getD "").toList := by
    obtain ⟨reach, front_eq, input_eq⟩ | ⟨reach, front_eq, input_eq⟩ :=
      List.append_eq_append_iff.1 fronts
    · obtain rfl := eq_nil_of_flags (input_eq ▸ plain.input) (input_eq ▸ plain.apart) front_eq
      exact ⟨by simpa using front_eq.symm, by simpa using input_eq⟩
    · obtain rfl := eq_nil_of_flags (input_eq ▸ plain'.input) (input_eq ▸ plain'.apart) front_eq
      exact ⟨by simpa using front_eq, by simpa using input_eq.symm⟩
  obtain ⟨texts, flags⟩ := List.append_inj' fronts rfl
  obtain ⟨emits, is_strict⟩ : flagChar options.emitMap = flagChar options'.emitMap ∧
      flagChar options.strict = flagChar options'.strict := by simpa using flags
  exact ⟨String.toList_inj.1 texts, flagChar_injective emits, flagChar_injective is_strict,
    String.toList_inj.1 inputs, String.toList_inj.1 outputs⟩

/-- With plain paths a key tells apart whatever changes an outcome, except for an empty path and
none. Two outcomes with one key are the same if and only if both results have a path or neither has
one, where a map is made of a text that has a path that is not empty, and both texts have a path or
neither has one, where the run fails. -/
theorem optimize_eq_iff_of_keyBytes {text text' : String} {options options' : Options}
    (plain : IsPlain options) (plain' : IsPlain options')
    (same : keyBytes text options = keyBytes text' options') :
    text = text' ∧ options.Agrees options' ∧
      (optimize text options = optimize text' options' ↔
        match optimize text options with
        | .ok _ => options.emitMap → options.inputPath.getD "" ≠ "" →
            options.outputPath.isSome = options'.outputPath.isSome
        | .error _ => options.inputPath.isSome = options'.inputPath.isSome) := by
  obtain ⟨rfl, agrees⟩ := agrees_of_keyBytes plain plain' same
  refine ⟨rfl, agrees, ?_⟩
  rw [optimize_eq_iff_of_agrees agrees]
  cases optimize text options with
  | ok output => simp only [agrees.mapSource_eq_iff]
  | error failure => exact agrees.label_eq_iff

/-- Without a map, paths that are empty are as good as none for a run that succeeds. -/
theorem optimize_eq_iff_of_keyBytes_unmapped :
    keyBytes "var a;" ⟨none, none, false, true⟩ =
        keyBytes "var a;" ⟨some "", some "", false, true⟩ ∧
      optimize "var a;" ⟨none, none, false, true⟩ =
        optimize "var a;" ⟨some "", some "", false, true⟩ := by
  have same : keyBytes "var a;" ⟨none, none, false, true⟩ =
      keyBytes "var a;" ⟨some "", some "", false, true⟩ := rfl
  have plain : IsPlain ⟨none, none, false, true⟩ := ⟨by decide, by decide, by decide⟩
  have plain' : IsPlain ⟨some "", some "", false, true⟩ := ⟨by decide, by decide, by decide⟩
  obtain ⟨-, -, alike_iff⟩ := optimize_eq_iff_of_keyBytes plain plain' same
  have succeeds : ∃ output, optimize "var a;" ⟨none, none, false, true⟩ = .ok output :=
    ⟨⟨"var a;", none⟩, by decide +kernel⟩
  obtain ⟨output, optimized⟩ := succeeds
  refine ⟨same, alike_iff.2 ?_⟩
  rw [optimized]
  exact fun emits => absurd emits Bool.false_ne_true

/-- Different outcomes with one key: an output path, or the input path of a run that fails, is
absent or empty; a zero in a path divides it; flags stand in a path. -/
theorem keyBytes_collisions :
    (keyBytes "var a;" ⟨some "a.js", none, true, false⟩ =
        keyBytes "var a;" ⟨some "a.js", some "", true, false⟩ ∧
      optimize "var a;" ⟨some "a.js", none, true, false⟩ ≠
        optimize "var a;" ⟨some "a.js", some "", true, false⟩) ∧
    (keyBytes "decorators(" ⟨none, none, false, true⟩ =
        keyBytes "decorators(" ⟨some "", none, false, true⟩ ∧
      optimize "decorators(" ⟨none, none, false, true⟩ ≠
        optimize "decorators(" ⟨some "", none, false, true⟩) ∧
    (keyBytes "var a;" ⟨some "a\x00b", some "c", true, false⟩ =
        keyBytes "var a;" ⟨some "a", some "b\x00c", true, false⟩ ∧
      optimize "var a;" ⟨some "a\x00b", some "c", true, false⟩ ≠
        optimize "var a;" ⟨some "a", some "b\x00c", true, false⟩) ∧
    (keyBytes "var a;" ⟨some "\x01a.js", none, false, true⟩ =
        keyBytes "var a;\x00" ⟨some "a.js", none, true, true⟩ ∧
      optimize "var a;" ⟨some "\x01a.js", none, false, true⟩ ≠
        optimize "var a;\x00" ⟨some "a.js", none, true, true⟩) := by
  decide +kernel

end Cache
end Shakedown
