import Shakedown.Proofs.Module.Annotation
import Shakedown.Proofs.Module.Markers
import Shakedown.Proofs.Script.WovenCourse

/-!
# Marking keeps the tokens

A marker stands where a tree begins, and so a token. There the comment is skipped, and the tokens of
the marked text are those of the text before. Only behind the sign of division the marker is no comment
of its own: with the sign it opens one that hides the call.
-/

namespace Shakedown

open Text

theorem Revision.inserted_eq (revision : Revision) (place : Nat) :
    Meaning.inserted revision.edits place = (revision.textsAt place).flatMap String.toList := by
  rw [Meaning.inserted, textsAt]
  induction revision.edits with
  | nil => rfl
  | cons edit edits ih =>
      rw [List.flatMap_cons, ih, List.filterMap_cons]
      cases edit with
      | insert position text => by_cases here : position = place <;> simp [Edit.textAt?, here]
      | remove => rfl
      | move => rfl

/-- The tokens of a script are those that reading passes, and each tree begins where one does. -/
structure Script.HasTokens (script : Script) (tokens : List Token) : Prop where
  /-- Reading passes them. -/
  tokenizes : Lexer.Tokenizes script.text.toList tokens
  /-- The trees begin where they do. -/
  begin_in : ∀ statement ∈ script.program.body, statement.BeginsIn (tokens.map (·.span.start))

namespace Optimize

variable {script : Script} {place : Nat}

/-- The marker of a call that has none. -/
def marker (script : Script) (place : Nat) : List Char :=
  if place ∈ PureCall.unmarked script then (Marker.pure ++ " ").toList else []

/-- The manifest that a script lacks, with the end of the line that sets it apart. -/
def missingManifest (script : Script) : List Char :=
  if PureCall.beginsWithManifest script then []
  else
    let comment := (Manifest.comment (PureCall.importTokens script.program [])).toList
    if script.program.hashbang.isSome then '\n' :: comment else comment ++ ['\n']

theorem areRemarks_marker (script : Script) : Lexer.AreRemarks (marker script) where
  skips := by
    intro place
    unfold marker
    split
    · exact PureCall.skips_marker
    · exact .nil
  opens := by
    intro place
    unfold marker
    split
    · exact .inr rfl
    · exact .inl rfl

theorem skips_missingManifest (script : Script) :
    ∃ ends, Lexer.Skips (missingManifest script) ends := by
  obtain ⟨ends, skips⟩ := PureCall.skips_manifest script.program []
  have line_end : Lexer.Skips ['\n'] true := .lineEnd (by decide)
  unfold missingManifest
  split
  · exact ⟨false, .nil⟩
  · dsimp only
    split
    · exact ⟨_, line_end.append skips⟩
    · exact ⟨_, skips.append line_end⟩

/-- A call that is marked begins where a token does. -/
theorem mem_starts_of_hasTokens {tokens : List Token} (has : script.HasTokens tokens)
    (listed : place ∈ PureCall.unmarked script) : place ∈ tokens.map (·.span.start) := by
  obtain ⟨statement, in_body, member⟩ := exists_statement listed
  obtain ⟨inner, below, rfl⟩ := (PureCall.mem_starts statement).1 place member
  exact has.begin_in statement in_body inner below

theorem marker_ne_nil : marker script place ≠ [] ↔ place ∈ PureCall.unmarked script := by
  unfold marker
  split <;> simp [*]

/-- No sign of division is in front of a marked place if no slash is. -/
theorem apart_of_charsBefore {tokens : List Token} (has : script.HasTokens tokens)
    (free : ∀ place ∈ PureCall.unmarked script,
      (Text.charsBefore script.text place).getLast? ≠ some '/') :
    ∀ token ∈ tokens, token.kind = .sign "/" → token.span.stop ∉ PureCall.unmarked script := by
  intro token listed is_sign unmarked
  obtain ⟨⟨front, text_eq, width_eq⟩, stop_eq⟩ :=
    (has.tokenizes.liesIn token listed).sign "/" is_sign
  refine free _ unmarked ?_
  have slash : "/".toList = ['/'] := rfl
  have stop_eq : token.span.stop = width (front ++ ['/']) := by
    rw [stop_eq, slash, width_append, width_eq]
  rw [slash, ← List.append_assoc] at text_eq
  rw [Text.charsBefore, text_eq, stop_eq, Text.splitAt?_append]
  simp

section Read

variable {text file : String} (read : Script.read text file = .ok script)
include read

/-- Markers are inserted at their places, and the manifest where reading begins. -/
theorem inserted_markings (place : Nat) : Meaning.inserted (markings script).edits place =
    (if place = (Lexer.opening text.toList).1 then missingManifest script else []) ++
      marker script place := by
  have marked : ((((PureCall.unmarked script).foldl (fun revision position =>
      revision.insert position (Marker.pure ++ " ")) Revision.empty).textsAt place).flatMap
        String.toList) = marker script place := by
    rw [PureCall.textsAt_foldl_insert (PureCall.unmarked_nodup script), marker]
    split <;> simp [Revision.textsAt, Revision.empty]
  have hashbang_eq := Script.hashbang_of_read read
  rw [Revision.inserted_eq, markings, PureCall.record, PureCall.recordManifest, missingManifest]
  split
  · rw [marked]
    simp
  · cases found : Lexer.hashbang? text.toList with
    | none =>
        rw [found] at hashbang_eq
        simp only [hashbang_eq, Option.map_none, Lexer.opening, found]
        rw [Revision.textsAt_insertFirst, List.flatMap_append, marked]
        by_cases here : place = 0 <;> simp [here, eq_comm]
    | some hashbang =>
        obtain ⟨line, rest⟩ := hashbang
        rw [found] at hashbang_eq
        simp only [hashbang_eq, Option.map_some, Lexer.opening, found]
        rw [Revision.textsAt_insert, List.flatMap_append, marked]
        by_cases here : place = line.stop
        · have unmarked : place ∉ PureCall.unmarked script := fun listed =>
            Nat.lt_irrefl _ (here ▸ stop_lt_of_hashbang read listed hashbang_eq)
          simp [here, marker, here ▸ unmarked]
        · simp [here, eq_comm]

/-- From where reading begins, the manifest comes first and then the markers. -/
theorem woven_inserted (rest : List Char) :
    Lexer.woven (Meaning.inserted (markings script).edits) (Lexer.opening text.toList).1 rest =
      missingManifest script ++
        Lexer.woven (marker script) (Lexer.opening text.toList).1 rest := by
  refine Lexer.woven_lead ?_ fun place behind => ?_
  · rw [inserted_markings read, if_pos rfl]
  · rw [inserted_markings read, if_neg (by omega), List.nil_append]

theorem render_markings : ((markings script).render text).text.toList =
    Lexer.woven (Meaning.inserted (markings script).edits) 0 text.toList := by
  rw [(annotates_of_read read).result_eq, Script.text_of_read read, Lexer.woven, Nat.zero_add]

/-- The manifest begins as a comment, or with the end of the line that names an interpreter. -/
theorem missingManifest_cases : missingManifest script = [] ∨
    (missingManifest script).head? =
      some (if (Lexer.hashbang? text.toList).isSome then '\n' else '/') := by
  have hashbang_eq := congrArg Option.isSome (Script.hashbang_of_read read)
  rw [Option.isSome_map] at hashbang_eq
  rw [missingManifest]
  split
  · exact .inl rfl
  · refine .inr ?_
    rw [hashbang_eq, Manifest.comment_eq_remark]
    split <;> rfl

/-- A text that names no interpreter is marked from its start. -/
theorem hashbang?_markings (plain : Lexer.hashbang? text.toList = none) :
    Lexer.hashbang? (Lexer.woven (Meaning.inserted (markings script).edits) 0 text.toList) = none := by
  refine Lexer.hashbang?_woven (fun place => ?_) plain
  have manifest_begins := missingManifest_cases read
  rw [inserted_markings read, plain] at *
  split
  · obtain none | begins := manifest_begins
    · rw [none]
      exact (areRemarks_marker script).opens place
    · exact .inr (by rw [List.head?_append, begins]; rfl)
  · exact (areRemarks_marker script).opens place

section Interpreter

variable {line : Span} {rest : List Char} (found : Lexer.hashbang? text.toList = some (line, rest))
include found

/-- No call is marked up to the end of the line that names an interpreter. -/
theorem marker_eq_nil (le : place ≤ line.stop) : marker script place = [] := by
  have line_eq : script.program.hashbang = some line := by
    rw [Script.hashbang_of_read read, found, Option.map_some]
  exact if_neg fun listed => Nat.not_lt.2 le (stop_lt_of_hashbang read listed line_eq)

/-- That line stays apart from what follows it. -/
theorem endsLine_markings :
    (missingManifest script ++ Lexer.woven (marker script) line.stop rest).head?.all
      ScriptChar.endsLine := by
  have manifest_begins := missingManifest_cases read
  rw [found] at manifest_begins
  obtain none | begins := manifest_begins
  · rw [none, List.nil_append, Lexer.head?_woven (marker_eq_nil read found (Nat.le_refl _))]
    obtain rfl | ⟨char, others, rfl, ends⟩ := Lexer.endsLine_of_hashbang found
    · rfl
    · exact ends
  · rw [List.head?_append, begins]
    rfl

end Interpreter

/-- Reading the marked text begins where reading the text does, with the manifest in front. -/
theorem opening_markings :
    Lexer.opening ((markings script).render text).text.toList =
      ((Lexer.opening text.toList).1, missingManifest script ++
        Lexer.woven (marker script) (Lexer.opening text.toList).1 (Lexer.opening text.toList).2) := by
  have woven_eq := woven_inserted read
  rw [render_markings read]
  cases found : Lexer.hashbang? text.toList with
  | none =>
      have plain := hashbang?_markings read found
      simp only [Lexer.opening, found] at woven_eq ⊢
      rw [woven_eq] at plain ⊢
      rw [plain]
  | some hashbang =>
      obtain ⟨line, rest⟩ := hashbang
      obtain ⟨front, text_eq, width_eq, behind⟩ := Lexer.hashbang?_append found
      have inserted_eq := inserted_markings read
      have bare {place : Nat} (le : place ≤ line.stop) : marker script place = [] :=
        marker_eq_nil read found le
      have ends := endsLine_markings read found
      simp only [Lexer.opening, found] at inserted_eq woven_eq ⊢
      have in_front (place : Nat) (before : place < line.stop) :
          Meaning.inserted (markings script).edits place = [] := by
        rw [inserted_eq, if_neg (Nat.ne_of_lt before), bare (Nat.le_of_lt before), List.append_nil]
      rw [text_eq, Lexer.woven_bare fun place _ before => in_front place (by omega), Nat.zero_add,
        width_eq, woven_eq, behind _ ends]

end Read

/-- A division with a blank behind its sign, by a call with a regular expression and a construction in
it. -/
def spacedDivision : String := "var x=1/ f(/=/g,new C)"

/-- A division without blanks. -/
def division : String := "var x = 1/f();"

end Optimize
end Shakedown
