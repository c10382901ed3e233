import Shakedown.Proofs.Script.Reader.Basic
import Shakedown.Script.Reader.Class

/-!
# Functions and classes spaced out

Patterns, parameters, bodies and classes leave one tree each. Decorators and names stand before what
they belong to, so they are handed on as a trail.
-/

namespace Shakedown
namespace Reader

open Node Text

variable {text : List Char} {origin : Nat} {grammar : Grammar} {start state : ReadState}
  {moved : Bool} {nodes : List Node} {context : ReadContext}

theorem gives_restBinding : Gives text origin restBinding := by
  intro context start sound
  refine meets_startOffset ((Trail.refl sound).expectSign fun state trail => ?_)
  refine gives_binding.bind trail fun target state trail => ?_
  exact trail.node rfl

/-- A parameter without decorators is a pattern. -/
theorem meets_marked {marks : List Node} {pattern : Node}
    (trail : Trail text origin start true (marks ++ [pattern]) state) :
    Meets (if marks.isEmpty then pure pattern
      else node start.token.span.start .decorated (marks ++ [pattern])) context state
      fun node after => Trail text origin start false [node] after := by
  split
  · rename_i none_marked
    obtain rfl : marks = [] := List.isEmpty_iff.1 none_marked
    exact meets_pure trail.weaken
  · exact trail.node rfl

theorem suffix_splitDirectives (statements : List Node) :
    (splitDirectives statements).2 <:+ statements := by
  induction statements with
  | nil => exact List.suffix_rfl
  | cons statement rest ih =>
      unfold splitDirectives
      split
      · exact List.suffix_rfl
      · exact ih.trans (List.suffix_cons _ _)

namespace Nests

variable (nests : Nests text origin grammar)

include nests

/-! ## Patterns -/

theorem patternElement : Gives text origin (patternElement grammar) := by
  intro context start sound
  refine meets_startOffset (nests.pattern.bind (.refl sound) fun target state trail => ?_)
  refine trail.takeSign (fun state trail => ?_) (meets_pure trail.weaken)
  refine nests.assignment.bracketed.bind trail fun standard state trail => ?_
  exact trail.node rfl

theorem restPattern : Gives text origin (restPattern grammar) := by
  intro context start sound
  refine meets_startOffset ((Trail.refl sound).expectSign fun state trail => ?_)
  refine nests.pattern.bind trail fun target state trail => ?_
  exact trail.node rfl

theorem arrayPatternElements :
    Yields text origin (fun items => items) (arrayPatternElements grammar) := by
  intro context start sound
  refine meets_loop (fun items state => Trail text origin start false items state) (.refl sound) ?_
  intro items state trail
  refine trail.takeSign (fun state trail => meets_pure trail.weaken) (meets_peek ?_)
  dsimp only
  split
  · rename_i is_comma
    have live : state.token.kind ≠ .finish := by simp [isSign_iff.1 is_comma]
    exact trail.advance_leaf live rfl fun state trail => meets_pure trail.weaken
  split
  · refine nests.restPattern.bind trail fun rest state trail => ?_
    exact trail.expectSign fun state trail => meets_pure trail.weaken
  · refine nests.patternElement.bind trail fun element state trail => meets_atSign ?_
    split
    · exact meets_pure trail.weaken
    · exact trail.expectSign fun state trail => meets_pure trail.weaken

theorem patternMember : Gives text origin (patternMember grammar) := by
  intro context start sound
  refine meets_peek (meets_peekSecond ?_)
  dsimp only
  split
  · refine meets_bind ((Trail.refl sound).meets_name fun name state trail stop_eq framed => ?_)
    have own : Trail text origin start true [.mk (.binding name) start.token.span []] state :=
      trail.leaf stop_eq framed rfl
    refine own.takeSign (fun state trail => ?_) ?_
    · refine nests.assignment.bracketed.bind trail fun standard state trail => ?_
      have behind := trail.row.within _ List.mem_cons_self
      exact meets_bind (meets_node ((trail.whole rfl).shorthand framed rfl rfl
        (Span.covers_iff.2 ⟨Nat.le_refl _, behind.2⟩)))
    · exact own.shorthand framed rfl rfl (Span.covers_iff.2 ⟨Nat.le_refl _, Nat.le_refl _⟩)
  · refine nests.propertyKey.bind (.refl sound) fun key state trail => ?_
    obtain ⟨key, isComputed⟩ := key
    refine trail.expectSign fun state trail => ?_
    refine nests.patternElement.bind trail fun value state trail => ?_
    exact trail.node rfl

theorem objectPatternMembers :
    Yields text origin (fun items => items) (objectPatternMembers grammar) := by
  intro context start sound
  refine meets_loop (fun items state => Trail text origin start false items state) (.refl sound) ?_
  intro items state trail
  refine trail.takeSign (fun state trail => meets_pure trail.weaken) (meets_atSign ?_)
  split
  · refine gives_restBinding.bind trail fun rest state trail => ?_
    exact trail.expectSign fun state trail => meets_pure trail.weaken
  · refine nests.patternMember.bind trail fun member state trail => meets_atSign ?_
    dsimp only
    split
    · exact meets_pure trail.weaken
    · exact trail.expectSign fun state trail => meets_pure trail.weaken

theorem patternProduction : Gives text origin (patternProduction grammar) := by
  intro context start sound
  refine meets_startOffset ?_
  refine (Trail.refl sound).takeSign (fun state trail => ?_) ?_
  · refine nests.arrayPatternElements.bind trail fun elements state trail => ?_
    exact trail.node rfl
  refine (Trail.refl sound).takeSign (fun state trail => ?_) (gives_binding context start sound)
  refine nests.objectPatternMembers.bind trail fun members state trail => ?_
  exact trail.node rfl

/-! ## Decorators and parameters -/

theorem decorators : Yields text origin (fun items => items) (decorators grammar) := by
  intro context start sound
  refine meets_loop (fun items state => Trail text origin start false items state) (.refl sound) ?_
  intro items round trail
  refine meets_startOffset ?_
  refine (Trail.refl trail.sound).takeSign (fun state mark => ?_) (meets_pure trail)
  refine nests.leftHand.within.bind mark fun expression state mark => ?_
  refine meets_bind ((mark.node rfl).mono fun node state mark => meets_pure ?_)
  simpa using trail.trans mark

theorem parameter : Gives text origin (parameter grammar) := by
  intro context start sound
  refine meets_startOffset (nests.decorators.bind (.refl sound) fun marks state trail => ?_)
  refine meets_atSign ?_
  dsimp only
  split
  · refine nests.restPattern.bind trail fun pattern state trail => meets_atSign ?_
    exact meets_require fun _ => meets_marked trail
  · refine nests.patternElement.bind trail fun pattern state trail => ?_
    exact meets_marked trail

theorem parameters : Gives text origin (parameters grammar) := by
  intro context start sound
  refine meets_startOffset ((Trail.refl sound).expectSign fun state trail => ?_)
  refine (closes_commaList nests.parameter).within.yields.bind trail fun items state trail => ?_
  exact trail.node rfl

/-! ## Bodies -/

theorem statementList (closes : Token → Bool) :
    Yields text origin (fun items => items) (statementList grammar closes) := by
  intro context start sound
  refine meets_loop (fun items state => Trail text origin start false items state) (.refl sound) ?_
  intro items state trail
  refine meets_peek ?_
  split
  · exact meets_pure trail
  · exact (nests.statement false).bind trail fun statement state trail => meets_pure trail.weaken

theorem functionBody : Gives text origin (functionBody grammar) := by
  intro context start sound
  refine meets_startOffset ((Trail.refl sound).expectSign fun state trail => ?_)
  refine (nests.statementList closesBlock).bind trail fun items state trail => ?_
  have sub := (suffix_splitDirectives items).sublist
  refine (trail.sublist sub).expectSign fun state trail => ?_
  exact trail.node rfl

/-- A function is made of its name, which comes first, its parameters and its body. -/
theorem functionRest {form : FunctionForm} {isAsync isGenerator : Bool}
    (trail : Trail text origin start moved nodes state) :
    Meets (functionRest grammar start.token.span.start form isAsync isGenerator nodes) context state
      fun node after => Trail text origin start false [node] after := by
  refine meets_within ?_
  refine nests.parameters.bind trail fun inputs state trail => ?_
  refine nests.functionBody.bind trail fun body state trail => ?_
  simpa using trail.node rfl

theorem method {form : MemberForm} {isAsync isGenerator : Bool} :
    Gives text origin (method grammar form isAsync isGenerator) := by
  intro context start sound
  refine meets_startOffset (meets_bind ((nests.functionRest (.refl sound)).mono ?_))
  intro function state trail
  dsimp only
  split
  · split
    · exact meets_pure trail
    · exact meets_bind meets_failAt
  · exact meets_pure trail

theorem functionFrom {form : FunctionForm} {isAsync nameless : Bool}
    (trail : Trail text origin start moved [] state) :
    Meets (functionFrom grammar start.token.span.start form isAsync nameless) context state
      fun node after => Trail text origin start false [node] after := by
  refine trail.expectWord fun state trail => ?_
  refine keeps_takeSign.bind trail fun isGenerator state trail => meets_peek ?_
  dsimp only
  refine meets_forbid fun _ => ?_
  split
  · split
    · refine gives_binding.within.bind trail fun named state trail => ?_
      exact meets_bind (meets_pure (nests.functionRest trail))
    · refine gives_binding.bind trail fun named state trail => ?_
      exact meets_bind (meets_pure (nests.functionRest trail))
  · exact meets_bind (meets_pure (nests.functionRest trail))

/-! ## Classes -/

theorem memberKey : Yields text origin (fun key => [key.1]) (memberKey grammar) := by
  intro context start sound
  refine meets_peek ?_
  split
  · rename_i name kind_eq
    refine (Trail.refl sound).advance (by simp [kind_eq]) fun state trail => ?_
    exact meets_bind ((trail.node rfl).mono fun key state trail => meets_pure trail)
  · exact nests.propertyKey context start sound

theorem classField {marks : List Node} {key : Node} {isStatic isComputed isAccessor : Bool}
    (trail : Trail text origin start true (marks ++ [key]) state) :
    Meets (classField grammar start.token.span.start marks key isStatic isComputed isAccessor)
      context state fun node after => Trail text origin start false [node] after := by
  refine trail.takeSign (fun state trail => ?_) ?_
  · refine nests.assignment.within.bind trail fun value state trail => meets_bind (meets_pure ?_)
    refine keeps_semicolon.bind trail fun _ state trail => ?_
    simpa using trail.node rfl
  · refine meets_bind (meets_pure (keeps_semicolon.bind trail fun _ state trail => ?_))
    exact trail.node rfl

end Nests

theorem keeps_takeModifier {word : String} {mayStar sameLine : Bool} :
    Keeps text origin (takeModifier word mayStar sameLine) := by
  intro context start sound
  have trail := Trail.refl sound
  refine meets_atWord ?_
  split
  · rename_i is_word
    have live : start.token.kind ≠ .finish := by simp [isWord_iff.1 is_word]
    refine meets_peekSecond ?_
    split
    · exact meets_pure trail
    · split
      · exact trail.advance live fun state trail => meets_pure trail.weaken
      · exact meets_pure trail
  · exact meets_pure trail

namespace Nests

variable (nests : Nests text origin grammar)

include nests

theorem classMemberRest {marks : List Node} {isStatic : Bool}
    (trail : Trail text origin start moved marks state) :
    Meets (classMemberRest grammar start.token.span.start marks isStatic) context state
      fun node after => Trail text origin start false [node] after := by
  refine keeps_takeModifier.bind trail fun isAccessor state trail => ?_
  dsimp only
  refine keeps_takeModifier.unless trail fun isAsync state trail => ?_
  refine keeps_takeSign.unless trail fun isGenerator state trail => ?_
  refine keeps_takeModifier.when trail fun isGetter state trail => ?_
  refine keeps_takeModifier.when trail fun isSetter state trail => ?_
  refine nests.memberKey.bind trail fun key state trail => ?_
  obtain ⟨key, isComputed⟩ := key
  refine meets_atSign ?_
  split
  · refine nests.method.bind trail fun function state trail => ?_
    simpa using trail.node rfl
  · exact nests.classField (trail.moves (List.mem_append_right _ List.mem_cons_self))

theorem classMember : Gives text origin (classMember grammar) := by
  intro context start sound
  refine meets_startOffset (nests.decorators.bind (.refl sound) fun marks state trail => ?_)
  refine meets_peekSecond (meets_atWord ?_)
  dsimp only
  split
  · -- the second token is a brace, so both words can be passed
    rename_i opens
    simp only [Bool.and_eq_true, List.isEmpty_iff] at opens
    obtain ⟨⟨is_word, is_brace⟩, rfl⟩ := opens
    have live : state.token.kind ≠ .finish := by simp [isWord_iff.1 is_word]
    refine meets_bind (trail.meets_advance live fun state trail _ second_eq => ?_)
    have second_live : state.token.kind ≠ .finish := by
      rw [second_eq, Option.any_some] at is_brace
      simp [isSign_iff.1 is_brace]
    refine trail.advance second_live fun state trail => ?_
    refine (nests.statementList closesBlock).within.bind trail fun items state trail => ?_
    refine trail.expectSign fun state trail => ?_
    exact trail.node rfl
  · refine keeps_takeModifier.bind trail fun isStatic state trail => ?_
    exact nests.classMemberRest trail

theorem classBody : Gives text origin (classBody grammar) := by
  intro context start sound
  refine meets_startOffset ((Trail.refl sound).expectSign fun state trail => ?_)
  refine meets_bind (meets_loop (fun items state => Trail text origin start true items state)
    trail fun items state trail => ?_)
  refine trail.takeSign (fun state trail => meets_pure (trail.node rfl)) ?_
  refine trail.takeSign (fun state trail => meets_pure trail) ?_
  exact nests.classMember.bind trail fun member state trail => meets_pure trail

theorem classFrom {marks : List Node} {isDeclaration : Bool}
    (trail : Trail text origin start moved marks state) :
    Meets (classFrom grammar start.token.span.start marks isDeclaration) context state
      fun node after => Trail text origin start false [node] after := by
  refine trail.expectWord fun state trail => meets_peek ?_
  dsimp only
  refine gives_binding.optional trail fun named state trail => ?_
  refine keeps_takeWord.bind trail fun extends_ state trail => ?_
  refine nests.leftHand.optional trail fun parent state trail => ?_
  refine nests.classBody.bind trail fun body state trail => ?_
  exact trail.node rfl

end Nests

end Reader
end Shakedown
