import Shakedown.Proofs.Script.Reader.Expression
import Shakedown.Script.Reader.ModuleItem

/-!
# Imports and exports spaced out

What is imported or exported leaves one tree for each name. The names of a list of exports are read
before it is known whether they are names of the module itself, so an entry stands for the trees
that it may become.
-/

namespace Shakedown
namespace Reader

open Node Text

variable {text : List Char} {origin : Nat} {grammar : Grammar} {start state : ReadState}
  {moved : Bool} {nodes : List Node} {context : ReadContext}

/-! ## Imports -/

theorem takes_foreignName : Takes text origin foreignName := by
  intro context start sound
  refine meets_peek ?_
  split
  · exact takes_stringValue context start sound
  · exact takes_word context start sound

theorem gives_importAttribute : Gives text origin importAttribute := by
  intro context start sound
  refine meets_startOffset (takes_foreignName.bind (.refl sound) fun key state trail => ?_)
  refine trail.expectSign fun state trail => ?_
  exact takes_stringValue.bind trail fun value state trail => trail.node rfl

theorem yields_importAttributes : Yields text origin (fun marks => marks) importAttributes := by
  intro context start sound
  have trail := Trail.refl sound
  refine meets_peek ?_
  dsimp only
  split
  · rename_i is_word
    have live : start.token.kind ≠ .finish := by
      simp only [Bool.or_eq_true, Bool.and_eq_true] at is_word
      obtain is_with | is_assert := is_word
      · simp [isWord_iff.1 is_with]
      · simp [isWord_iff.1 is_assert.1]
    refine trail.advance live fun state trail => trail.expectSign fun state trail => ?_
    exact (closes_commaList gives_importAttribute).yields.meets trail fun marks state trail =>
      trail.weaken
  · exact meets_pure trail

theorem gives_importSpecifier : Gives text origin importSpecifier := by
  intro context start sound
  have trail := Trail.refl sound
  refine meets_peek (meets_peekSecond ?_)
  extract_lets isRenamed isText
  split
  · refine takes_stringValue.bind trail fun imported state trail => ?_
    refine trail.expectWord fun state trail => ?_
    exact gives_binding.bind trail fun own state trail => trail.node rfl
  split
  · refine takes_word.bind trail fun imported state trail => ?_
    refine trail.expectWord fun state trail => ?_
    exact gives_binding.bind trail fun own state trail => trail.node rfl
  · refine gives_binding.bind trail fun own state trail => ?_
    split
    · exact trail.node rfl
    · exact meets_unexpected

theorem gives_importNamespace : Gives text origin importNamespace := by
  intro context start sound
  refine meets_startOffset ((Trail.refl sound).expectSign fun state trail => ?_)
  refine trail.expectWord fun state trail => ?_
  exact gives_binding.bind trail fun own state trail => trail.node rfl

theorem yields_importNames : Yields text origin (fun names => names) importNames := by
  intro context start sound
  refine (Trail.refl sound).expectSign fun state trail => ?_
  exact (closes_commaList gives_importSpecifier).yields.meets trail fun names state trail =>
    trail.weaken

theorem yields_importClause : Yields text origin (fun names => names) importClause := by
  intro context start sound
  have trail := Trail.refl sound
  refine meets_atSign ?_
  split
  · exact gives_importNamespace.bind trail fun all state trail => meets_pure trail.weaken
  refine meets_atSign ?_
  split
  · exact yields_importNames context start sound
  refine meets_startOffset (gives_binding.bind trail fun own state trail => ?_)
  refine meets_bind (meets_node ?_)
  have trail : Trail text origin start true
      [.mk .importDefault ⟨start.token.span.start, state.lastStop⟩ [own]] state := trail.whole rfl
  refine trail.takeSign (fun state trail => meets_atSign ?_) (meets_pure trail.weaken)
  split
  · exact gives_importNamespace.bind trail fun all state trail => meets_pure trail.weaken
  · exact yields_importNames.bind trail fun names state trail => meets_pure trail.weaken

theorem keeps_importPhase : Keeps text origin importPhase := by
  intro context start sound
  have trail := Trail.refl sound
  refine meets_peek (meets_peekSecond ?_)
  split
  · rename_i is_phase
    simp only [Bool.and_eq_true] at is_phase
    exact trail.advance (by simp [isWord_iff.1 is_phase.1]) fun state trail =>
      meets_pure trail.weaken
  split
  · rename_i is_phase
    simp only [Bool.and_eq_true] at is_phase
    exact trail.advance (by simp [isWord_iff.1 is_phase.1]) fun state trail =>
      meets_pure trail.weaken
  · exact meets_pure trail

theorem gives_importDeclaration : Gives text origin importDeclaration := by
  intro context start sound
  refine meets_startOffset ((Trail.refl sound).expectWord fun state trail => ?_)
  refine (keeps_modify).bind trail fun _ state trail => meets_peek ?_
  split
  · refine takes_stringValue.bind trail fun source state trail => ?_
    refine yields_importAttributes.bind trail fun marks state trail => ?_
    exact keeps_semicolon.bind trail fun _ state trail => trail.node rfl
  · refine keeps_importPhase.bind trail fun phase state trail => ?_
    refine yields_importClause.bind trail fun clause state trail => ?_
    refine trail.expectWord fun state trail => ?_
    refine takes_stringValue.bind trail fun source state trail => ?_
    refine yields_importAttributes.bind trail fun marks state trail => ?_
    exact keeps_semicolon.bind trail fun _ state trail => trail.node rfl

/-! ## Exports -/

/-- The tree of an entry of a list of exports, whose names are those of this module or not. -/
def ExportEntry.tree (isLocal : Bool) (entry : ExportEntry) : Node :=
  .mk (.exportSpecifier entry.name entry.exported) entry.span
    (if isLocal then [.mk (.reference entry.name) entry.localSpan []] else [])

/-- A name of the other module is the token that came next. -/
theorem meets_foreignName {post : String → ReadState → Prop} (sound : Sound text origin state)
    (rest : ∀ name after, Trail text origin state true [] after →
      after.lastStop = state.token.span.stop → Framed text state.token.span → post name after) :
    Meets foreignName context state post := by
  have trail := Trail.refl sound
  refine meets_peek ?_
  split
  · refine meets_peek ?_
    split
    · rename_i kind_eq
      have live : state.token.kind ≠ .finish := by simp [kind_eq]
      exact meets_bind (trail.meets_advance live fun after behind stop_eq _ =>
        meets_pure (rest _ after behind stop_eq (sound.lies.framed live)))
    · exact meets_unexpected
  · refine meets_peek ?_
    split
    · rename_i kind_eq
      have live : state.token.kind ≠ .finish := by simp [kind_eq]
      exact meets_bind (trail.meets_advance live fun after behind stop_eq _ =>
        meets_pure (rest _ after behind stop_eq (sound.lies.framed live)))
    · exact meets_unexpected

theorem yields_exportEntry (isLocal : Bool) :
    Yields text origin (fun entry => [entry.tree isLocal]) exportEntry := by
  intro context start sound
  refine meets_peek ?_
  extract_lets isText
  refine meets_bind (meets_foreignName sound fun name state trail stop_eq framed => ?_)
  have own : Trail text origin start true [.mk (.reference name) start.token.span []] state :=
    trail.leaf stop_eq framed rfl
  have entry {exported : String} {state : ReadState}
      (own : Trail text origin start true [.mk (.reference name) start.token.span []] state) :
      Meets (do
        let state ← get
        return { localSpan := start.token.span
                 span := ⟨start.token.span.start, state.lastStop⟩
                 name
                 isText
                 exported : ExportEntry }) context state
        fun entry after => Trail text origin start false [entry.tree isLocal] after := by
    refine meets_get (meets_pure ?_)
    cases isLocal with
    | true => exact (own.whole rfl).weaken
    | false => exact ((own.sublist (List.nil_sublist _)).whole rfl).weaken
  refine own.takeWord (fun state own => ?_) (entry own)
  exact takes_foreignName.bind own fun exported state own => entry own

theorem yields_exportEntries (isLocal : Bool) :
    Yields text origin (fun entries => entries.map (·.tree isLocal)) exportEntries := by
  intro context start sound
  refine (Trail.refl sound).expectSign fun opened own => ?_
  refine meets_loop
    (fun entries state => Trail text origin start false (entries.map (·.tree isLocal)) state)
    (by simpa using own.weaken) ?_
  intro entries state trail
  refine trail.takeSign (fun state trail => meets_pure trail.weaken) ?_
  refine (yields_exportEntry isLocal).bind trail fun entry state trail => meets_atSign ?_
  have trail : Trail text origin start false ((entries ++ [entry]).map (·.tree isLocal)) state := by
    simpa using trail
  dsimp only
  split
  · exact meets_pure trail
  · exact trail.expectSign fun state trail => meets_pure trail.weaken

theorem meets_exportSpecifier {isLocal : Bool} {entry : ExportEntry} :
    Meets (exportSpecifier isLocal entry) context state fun node after =>
      node = entry.tree isLocal ∧ after = state := by
  unfold exportSpecifier
  split
  · rename_i is_local
    split
    · exact meets_bind meets_failAt
    · exact meets_pure ⟨by simp [ExportEntry.tree, is_local], rfl⟩
  · rename_i is_foreign
    exact meets_pure ⟨by simp [ExportEntry.tree, is_foreign], rfl⟩

theorem meets_exportSpecifiers {isLocal : Bool} (entries : List ExportEntry) {state : ReadState} :
    Meets (entries.mapM (exportSpecifier isLocal)) context state fun nodes after =>
      nodes = entries.map (·.tree isLocal) ∧ after = state := by
  induction entries generalizing state with
  | nil =>
      rw [List.mapM_nil]
      exact meets_pure ⟨rfl, rfl⟩
  | cons entry rest ih =>
      rw [List.mapM_cons]
      refine meets_bind (meets_exportSpecifier.mono ?_)
      rintro node after ⟨rfl, rfl⟩
      refine meets_bind (ih.mono ?_)
      rintro nodes after ⟨rfl, rfl⟩
      exact meets_pure ⟨rfl, rfl⟩

theorem Trail.exportList (trail : Trail text origin start true [] state) :
    Meets (Reader.exportList start.token.span.start) context state fun node after =>
      Trail text origin start false [node] after := by
  refine meets_bind ?_
  intro entries after run
  have listed (isLocal : Bool) :
      Trail text origin start true (entries.map (·.tree isLocal)) after := by
    have behind := yields_exportEntries isLocal context state trail.sound entries after run
    simpa using trail.trans behind
  have closes {source : Option String} {marks : List Node} {state : ReadState}
      (trail : Trail text origin start true (entries.map (·.tree source.isNone) ++ marks) state) :
      Meets (do
        semicolon
        let specifiers ← entries.mapM (exportSpecifier source.isNone)
        Reader.node start.token.span.start (.exportList source) (specifiers ++ marks)) context state
        fun node after => Trail text origin start false [node] after := by
    refine keeps_semicolon.bind trail fun _ state trail => ?_
    refine meets_bind ((meets_exportSpecifiers entries).mono ?_)
    rintro specifiers after ⟨rfl, rfl⟩
    exact trail.node rfl
  refine (listed false).takeWord (fun state trail => ?_) ?_
  · refine meets_bind (meets_map (takes_stringValue.meets trail fun value state trail => ?_))
    exact yields_importAttributes.bind trail fun marks state trail => closes trail
  · refine meets_bind (meets_pure (meets_bind (meets_pure (closes ?_))))
    simpa using listed true

theorem Trail.exportAll (trail : Trail text origin start true [] state) :
    Meets (Reader.exportAll start.token.span.start) context state fun node after =>
      Trail text origin start false [node] after := by
  have closes {exported : Option String} {state : ReadState}
      (trail : Trail text origin start true [] state) :
      Meets (do
        Reader.expectWord "from"
        let source ← stringValue
        let marks ← importAttributes
        semicolon
        Reader.node start.token.span.start (.exportAll source exported) marks) context state
        fun node after => Trail text origin start false [node] after := by
    refine trail.expectWord fun state trail => ?_
    refine takes_stringValue.bind trail fun source state trail => ?_
    refine yields_importAttributes.bind trail fun marks state trail => ?_
    exact keeps_semicolon.bind trail fun _ state trail => trail.node rfl
  refine trail.expectSign fun state trail => ?_
  refine trail.takeWord (fun state trail => ?_) (meets_bind (meets_pure (closes trail)))
  exact meets_bind (meets_map (takes_foreignName.meets trail fun exported state trail =>
    closes trail))

namespace Nests

variable (nests : Nests text origin grammar)

include nests

theorem exportDefault (trail : Trail text origin start true [] state) :
    Meets (exportDefault grammar start.token.span.start) context state fun node after =>
      Trail text origin start false [node] after := by
  have own := Trail.refl trail.sound
  have exports {item : Node} {after : ReadState} (own : Trail text origin state false [item] after) :
      Meets (node start.token.span.start .exportDefault [item]) context after
        fun node after => Trail text origin start false [node] after :=
    (trail.trans own).node rfl
  refine meets_peek (meets_peekSecond ?_)
  dsimp only
  split
  · exact meets_bind ((nests.functionFrom own).mono fun item after own => exports own)
  split
  · rename_i is_async
    simp only [Bool.and_eq_true] at is_async
    refine own.advance (by simp [isWord_iff.1 is_async.1]) fun after own => ?_
    exact meets_bind ((nests.functionFrom own).mono fun item after own => exports own)
  split
  · exact meets_bind ((nests.classFrom own).mono fun item after own => exports own)
  split
  · refine nests.decorators.bind own fun marks after own => ?_
    exact meets_bind ((nests.classFrom own).mono fun item after own => exports own)
  · refine nests.assignment.bind own fun value after own => ?_
    refine keeps_semicolon.bind own fun _ after own => ?_
    exact meets_bind (meets_pure (exports own.weaken))

theorem exportItem : Gives text origin (exportItem grammar) := by
  intro context start sound
  refine meets_startOffset ((Trail.refl sound).expectWord fun state trail => ?_)
  refine (keeps_modify).bind trail fun _ state trail => meets_atSign ?_
  split
  · exact trail.exportList
  refine meets_atSign ?_
  split
  · exact trail.exportAll
  refine trail.takeWord (fun state trail => nests.exportDefault trail) (meets_startOffset ?_)
  refine (nests.statement false).bind trail fun item state trail => ?_
  split
  · exact trail.node rfl
  · exact meets_bind meets_failAt

end Nests

end Reader
end Shakedown
