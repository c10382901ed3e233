import Shakedown.Module.Optimize

/-!
# What a run returns

A run returns the text as it was, or what a rendering makes of it once the rendered text has been
read again.
-/

namespace Shakedown
namespace Optimize

variable {content : String} {selection : Selection} {options : Options} {output : Output}

/-- The output that is made of a rendering. -/
def outputOf (content : String) (options : Options) (rendering : Rendering) : Output :=
  if options.emitMap then
    { content :=
        if options.mapFile.isEmpty then rendering.text
        else MapComment.append rendering.text options.mapFile
      map := some
        (SourceMap.ofChunks content rendering.chunks options.mapFile options.mapSource) }
  else
    { content := rendering.text, map := none }

theorem changed_eq (content : String) (selection : Selection) (options : Options) :
    changed content selection options =
      (Script.read content options.label).bind fun script =>
        (Script.check (rendering script selection options.emitMap).text options.label).map fun _ =>
          outputOf content options (rendering script selection options.emitMap) := by
  unfold changed outputOf
  simp only [bind, Except.bind]
  cases Script.read content options.label with
  | error failure => rfl
  | ok script =>
      dsimp only
      generalize rendering script selection options.emitMap = rendered
      cases Script.check rendered.text options.label with
      | error failure => rfl
      | ok => cases options.emitMap <;> rfl

/-- The text with its edits is returned when both texts can be read. -/
theorem changed_eq_ok_iff : changed content selection options = .ok output ↔
    ∃ script, Script.read content options.label = .ok script ∧
      Script.check (rendering script selection options.emitMap).text options.label = .ok () ∧
      outputOf content options (rendering script selection options.emitMap) = output := by
  rw [changed_eq]
  cases Script.read content options.label with
  | error failure => simp [Except.bind]
  | ok script =>
      cases checked : Script.check (rendering script selection options.emitMap).text
          options.label with
      | error failure => simp [Except.bind, Except.map, checked]
      | ok => simp [Except.bind, Except.map, checked]

end Optimize

/-- A run that succeeds returns the text as it was or with its edits. -/
theorem unchanged_or_changed {content : String} {options : Options} {output : Output}
    (optimized : optimize content options = .ok output) :
    output = Optimize.unchanged content options ∨
      Optimize.changed content (Selection.ofText content) options = .ok output := by
  unfold optimize at optimized
  dsimp only at optimized
  split at optimized
  · split at optimized
    · rename_i changed
      exact .inr (changed.trans optimized)
    · split at optimized
      · contradiction
      · exact .inl (Except.ok.inj optimized).symm
  · exact .inl (Except.ok.inj optimized).symm

/-- A strict run never falls back to the text as it was. -/
theorem optimize_of_strict {options : Options} (strict : options.strict = true) (content : String) :
    optimize content options =
      if (Selection.ofText content).any then
        Optimize.changed content (Selection.ofText content) options
      else .ok (Optimize.unchanged content options) := by
  rw [optimize, strict]
  split
  · split
    · rename_i changed
      exact changed.symm
    · rename_i changed
      exact changed.symm
  · rfl

/-- Only a strict run fails. -/
theorem exists_output {options : Options} (lenient : options.strict = false) (content : String) :
    ∃ output, optimize content options = .ok output := by
  unfold optimize
  dsimp only
  split
  · split
    · exact ⟨_, rfl⟩
    · rw [lenient, if_neg Bool.false_ne_true]
      exact ⟨_, rfl⟩
  · exact ⟨_, rfl⟩

end Shakedown
