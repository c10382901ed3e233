import Shakedown.Proofs.Module.MapLines

/-!
# All edits or none

A run that cannot read the text, or cannot read the text with its edits, reports that when it is
strict and otherwise returns the text as it was, with a map that leads every place to itself. Any
other text that a run returns holds all edits, was read again, and has nothing but the name of its
map behind it.
-/

namespace Shakedown

/-! ## The name of the map -/

namespace MapComment

/-- What divides a text from a line behind it. -/
def lineBreak (text : String) : String :=
  match text.toList.getLast? with
  | none => ""
  | some last => if last = '\n' then "" else "\n"

theorem append_eq (text file : String) :
    append text file = text ++ (lineBreak text ++ (mark ++ file ++ ".map")) := by
  unfold append lineBreak
  dsimp only
  cases text.toList.getLast? with
  | none => simp [String.append_assoc]
  | some last =>
      dsimp only
      split <;> simp [String.append_assoc]

end MapComment

/-! ## Reports -/

namespace Script

variable {text file : String} {failure : Failure}

theorem code_of_read (failed : read text file = .error failure) :
    failure.report.code = "BO-PARSE" := by
  unfold read at failed
  split at failed
  · contradiction
  · obtain rfl := Except.error.inj failed
    rfl

theorem code_of_check (failed : check text file = .error failure) :
    failure.report.code = "BO-EMIT" := by
  unfold check at failed
  split at failed
  · contradiction
  · obtain rfl := Except.error.inj failed
    rfl

end Script

namespace Optimize

variable {content : String} {selection : Selection} {options : Options} {output : Output}
  {failure : Failure} {script : Script}

/-- The text with its edits is not returned when one of both texts cannot be read. -/
theorem changed_eq_error_iff : changed content selection options = .error failure ↔
    Script.read content options.label = .error failure ∨
      ∃ script, Script.read content options.label = .ok script ∧
        Script.check (rendering script selection options.emitMap).text options.label =
          .error failure := by
  rw [changed_eq]
  cases Script.read content options.label with
  | error failure => simp [Except.bind]
  | ok script =>
      cases checked : Script.check (rendering script selection options.emitMap).text
          options.label with
      | error failure => simp [Except.bind, Except.map, checked]
      | ok => simp [Except.bind, Except.map, checked]

/-! ## The edits of a run -/

/-- The edits of the selected passes, and with a map the removals of the lines that name one. -/
def allEdits (script : Script) (options : Options) : Revision :=
  ⟨Meaning.withRemovals (edits script (Selection.ofText script.text)).edits
    (if options.emitMap then (mapLines script.text).map Match.span else [])⟩

theorem rendering_eq (script : Script) (options : Options) :
    rendering script (Selection.ofText script.text) options.emitMap =
      (allEdits script options).render script.text := by
  unfold rendering allEdits
  dsimp only
  split
  case isTrue => rw [record_eq (isProper_of_mem_mapLines script.text)]
  case isFalse => rw [Meaning.withRemovals, List.map_nil, List.append_nil]

/-- What stands behind a text with its edits: with a map that has a file, a line that names it. -/
def trailer (text : String) (options : Options) : String :=
  if options.emitMap && !options.mapFile.isEmpty then
    MapComment.lineBreak text ++ (MapComment.mark ++ options.mapFile ++ ".map")
  else ""

/-- An output holds all edits of a run, and its map is made of them. -/
structure IsComplete (content : String) (options : Options) (output : Output) (script : Script) :
    Prop where
  /-- The edits are those that the script asks for. -/
  read : Script.read content options.label = .ok script
  /-- The text with its edits is read again. -/
  accepted : Script.check ((allEdits script options).render content).text options.label = .ok ()
  /-- Nothing but a line that names the map stands behind the text with its edits. -/
  content_eq : output.content = ((allEdits script options).render content).text ++
    trailer ((allEdits script options).render content).text options
  /-- The map is that of the text with its edits. -/
  map_eq : output.map = if options.emitMap then
      some (SourceMap.ofChunks content ((allEdits script options).render content).chunks
        options.mapFile options.mapSource)
    else none

theorem outputOf_eq (content : String) (options : Options) (rendering : Rendering) :
    outputOf content options rendering =
      { content := rendering.text ++ trailer rendering.text options
        map := if options.emitMap then
            some (SourceMap.ofChunks content rendering.chunks options.mapFile options.mapSource)
          else none } := by
  unfold outputOf trailer
  cases options.emitMap with
  | false => simp
  | true =>
      cases options.mapFile.isEmpty with
      | false => simp [MapComment.append_eq]
      | true => simp

/-- What is not the text as it was holds all edits. -/
theorem exists_isComplete
    (changed : changed content (Selection.ofText content) options = .ok output) :
    ∃ script, IsComplete content options output script := by
  obtain ⟨script, read, accepted, rfl⟩ := changed_eq_ok_iff.1 changed
  obtain rfl := Script.text_of_read read
  rw [rendering_eq] at accepted ⊢
  rw [outputOf_eq]
  exact ⟨script, read, accepted, rfl, rfl⟩

/-- The mode does not matter for what the edits make of a text. -/
theorem changed_mode (content : String) (selection : Selection) (options : Options)
    (strict : Bool) :
    changed content selection { options with strict } = changed content selection options :=
  rfl

theorem code_of_changed (failed : changed content selection options = .error failure) :
    failure.report.code = "BO-PARSE" ∨ failure.report.code = "BO-EMIT" := by
  obtain unread | ⟨script, -, rejected⟩ := changed_eq_error_iff.1 failed
  · exact .inl (Script.code_of_read unread)
  · exact .inr (Script.code_of_check rejected)

/-- A run gives the same in both modes unless the edits fail. Then a strict run says why, and any
other returns the text as it was. -/
theorem alike_or_fallback (content : String) (options : Options) :
    (∃ output, optimize content { options with strict := true } = .ok output ∧
      optimize content { options with strict := false } = .ok output) ∨
    ∃ failure, optimize content { options with strict := true } = .error failure ∧
      (failure.report.code = "BO-PARSE" ∨ failure.report.code = "BO-EMIT") ∧
      optimize content { options with strict := false } = .ok (unchanged content options) := by
  unfold optimize
  dsimp only
  rw [changed_mode _ _ _ true, changed_mode _ _ _ false]
  split
  case isFalse => exact .inl ⟨_, rfl, rfl⟩
  case isTrue =>
    cases changed_eq : changed content (Selection.ofText content) options with
    | ok output => exact .inl ⟨output, rfl, rfl⟩
    | error failure => exact .inr ⟨failure, rfl, code_of_changed changed_eq, rfl⟩

end Optimize

/-- A run that fails in strict mode returns the text as it was in the other, and all runs that
succeed return the same in both modes. Whatever text they return in place of the one they were
given holds all edits of the selected passes, and with a map is without the lines that named one;
it was read again, and nothing follows it but a line that names its map. -/
theorem optimize_allOrNothing (content : String) (options : Options) :
    ((∃ output, optimize content { options with strict := true } = .ok output ∧
        optimize content { options with strict := false } = .ok output) ∨
      ∃ failure, optimize content { options with strict := true } = .error failure ∧
        (failure.report.code = "BO-PARSE" ∨ failure.report.code = "BO-EMIT") ∧
        optimize content { options with strict := false } =
          .ok { content
                map := if options.emitMap then
                    some (SourceMap.identity content options.mapFile options.mapSource)
                  else none }) ∧
    ∀ output, optimize content options = .ok output → output.content ≠ content →
      ∃ script, Optimize.IsComplete content options output script := by
  refine ⟨Optimize.alike_or_fallback content options, fun output optimized different => ?_⟩
  obtain rfl | changed := unchanged_or_changed optimized
  · exact absurd rfl different
  · exact Optimize.exists_isComplete changed

/-- A text that ends with the name of its map. -/
def outdated : String :=
  "C.ctorParameters = function () \x7b\x7d;\nvar b = 1;\n//# sourceMappingURL=old.js.map"

/-- A strict run that makes a map and has a file for it. -/
def naming : Options :=
  { inputPath := some "a.js", outputPath := some "dist/a.js", emitMap := true, strict := true }

theorem exists_outdated : ∃ output, optimize outdated naming = .ok output ∧
    output.content = "/** PURE_IMPORTS_START  PURE_IMPORTS_END */\nvar b = 1;\n" ++
      "//# sourceMappingURL=a.js.map" := by
  have content_eq : (optimize outdated naming).toOption.map Output.content =
      some ("/** PURE_IMPORTS_START  PURE_IMPORTS_END */\nvar b = 1;\n" ++
        "//# sourceMappingURL=a.js.map") := by
    decide +kernel
  cases optimized : optimize outdated naming with
  | error failure => simp [optimized, Except.toOption] at content_eq
  | ok output =>
      rw [optimized] at content_eq
      exact ⟨output, rfl, Option.some.inj content_eq⟩

/-- A statement goes, the manifest comes, and the name of the map is another one. -/
theorem optimize_allOrNothing_outdated : ∃ output, optimize outdated naming = .ok output ∧
    output.content ≠ outdated ∧ ∃ script, Optimize.IsComplete outdated naming output script := by
  obtain ⟨output, optimized, content_eq⟩ := exists_outdated
  have different : output.content ≠ outdated := by
    rw [content_eq]
    decide
  have complete := (optimize_allOrNothing outdated naming).2 output optimized different
  exact ⟨output, optimized, different, complete⟩

/-- The edits of the passes alone would leave the name of the old map. -/
theorem not_isPrefix_outdated : ∃ output script, optimize outdated naming = .ok output ∧
    output.content ≠ outdated ∧ Script.read outdated naming.label = .ok script ∧
    ¬((Optimize.edits script (Selection.ofText outdated)).render outdated).text.toList <+:
      output.content.toList := by
  obtain ⟨output, optimized, content_eq⟩ := exists_outdated
  have passes_eq : ((Script.read outdated naming.label).toOption.map fun script =>
      ((Optimize.edits script (Selection.ofText outdated)).render outdated).text) =
      some ("/** PURE_IMPORTS_START  PURE_IMPORTS_END */\nvar b = 1;\n" ++
        "//# sourceMappingURL=old.js.map") := by
    decide +kernel
  cases read : Script.read outdated naming.label with
  | error failure => simp [read, Except.toOption] at passes_eq
  | ok script =>
      rw [read] at passes_eq
      have text_eq :
          ((Optimize.edits script (Selection.ofText outdated)).render outdated).text = _ :=
        Option.some.inj passes_eq
      refine ⟨output, script, optimized, ?_, rfl, ?_⟩
      · rw [content_eq]
        decide
      · rw [content_eq, text_eq]
        decide

end Shakedown
