import Shakedown.Proofs.Script.Reader.Function
import Shakedown.Proofs.Script.Regrouping
import Shakedown.Script.Reader.Expression

/-!
# Expressions spaced out

Operands, members, calls, operators and arrow functions leave one tree each. What is already read
when a production begins is handed on as a trail: the object before a link, the left side before
an assignment.
-/

namespace Shakedown
namespace Reader

open Node Text

variable {text : List Char} {origin : Nat} {grammar : Grammar} {start state : ReadState}
  {moved : Bool} {nodes : List Node} {context : ReadContext}

/-- The token to be read next is read once more. -/
theorem Trail.retoken {token : Token} (trail : Trail text origin start moved nodes state)
    (reread : Lexer.Reread state.token token) :
    Trail text origin start moved nodes { state with token } where
  before := trail.before
  sound :=
    { lies := (reread.liesIn trail.sound.lies).1
      origin_le := trail.sound.origin_le
      lastStop_le := (reread.liesIn trail.sound.lies).2.1 ▸ trail.sound.lastStop_le
      ends := trail.sound.ends }
  lastStop_le := trail.lastStop_le
  token_le := (reread.liesIn trail.sound.lies).2.1 ▸ trail.token_le
  row := trail.row
  ahead := trail.ahead
  roots := by simpa using trail.roots.trans (.nil (.again reread (.here token)))

namespace Nests

variable (nests : Nests text origin grammar)

include nests

/-! ## Operands -/

theorem expression : Gives text origin (expression grammar) := by
  intro context start sound
  refine meets_startOffset (nests.assignment.bind (.refl sound) fun first state trail => ?_)
  refine meets_bind (meets_loop (fun items state => Trail text origin start true items state)
    trail fun items state trail => ?_)
  refine trail.takeSign (fun state trail => ?_) ?_
  · exact nests.assignment.bind trail fun item state trail => meets_pure trail
  · refine meets_pure ?_
    dsimp only
    split
    · exact meets_pure trail.weaken
    · exact trail.node rfl

theorem spreadable : Gives text origin (spreadable grammar) := by
  intro context start sound
  refine meets_startOffset ((Trail.refl sound).takeSign (fun state trail => ?_) ?_)
  · refine nests.assignment.bind trail fun value state trail => ?_
    exact trail.node rfl
  · exact nests.assignment context start sound

theorem argumentsRest : Closes text origin ")" (argumentsRest grammar) :=
  (closes_commaList nests.spreadable).within

theorem arrayLiteral : Gives text origin (arrayLiteral grammar) := by
  intro context start sound
  refine meets_startOffset (meets_bind ((Trail.refl sound).meets_expectSign ?_))
  intro opens opened own stop_eq
  refine meets_bind (meets_within (meets_loop
    (fun items state => Trail text origin opened false items state) (.refl own.sound) ?_))
  intro items state trail
  refine trail.takeClose (fun state closed => meets_pure ?_) (meets_peek ?_)
  · exact own.list opens rfl rfl rfl stop_eq closed
  dsimp only
  split
  · rename_i is_comma
    have live : state.token.kind ≠ .finish := by simp [isSign_iff.1 is_comma]
    exact trail.advance_leaf live rfl fun state trail => meets_pure trail.weaken
  · refine nests.spreadable.bind trail fun element state trail => meets_atSign ?_
    split
    · exact meets_pure trail.weaken
    · exact trail.expectSign fun state trail => meets_pure trail.weaken

theorem objectMethod {form : MemberForm} {isAsync isGenerator : Bool}
    (named : form ≠ .shorthand) (trail : Trail text origin start moved [] state) :
    Meets (objectMethod grammar start.token.span.start form isAsync isGenerator) context state
      fun node after => Trail text origin start false [node] after := by
  refine nests.propertyKey.bind trail fun key state trail => ?_
  obtain ⟨key, isComputed⟩ := key
  refine nests.method.bind trail fun function state trail => ?_
  exact trail.node (by cases form <;> first | rfl | contradiction)

theorem plainMember : Gives text origin (plainMember grammar) := by
  intro context start sound
  refine meets_peek (meets_peekSecond ?_)
  dsimp only
  split
  · refine meets_bind ((Trail.refl sound).meets_name fun name state trail stop_eq framed => ?_)
    have own : Trail text origin start true [.mk (.reference name) start.token.span []] state :=
      trail.leaf stop_eq framed rfl
    refine own.takeSign (fun state trail => ?_) ?_
    · refine nests.assignment.bind trail fun standard state trail => ?_
      exact trail.shorthand framed rfl rfl (Span.covers_iff.2 ⟨Nat.le_refl _, Nat.le_refl _⟩)
    · exact own.shorthand framed rfl rfl (Span.covers_iff.2 ⟨Nat.le_refl _, Nat.le_refl _⟩)
  · refine nests.propertyKey.bind (.refl sound) fun key state trail => ?_
    obtain ⟨key, isComputed⟩ := key
    refine meets_atSign ?_
    split
    · refine nests.method.bind trail fun function state trail => ?_
      exact trail.node rfl
    · refine trail.expectSign fun state trail => ?_
      refine nests.assignment.bind trail fun value state trail => ?_
      exact trail.node rfl

theorem objectMember : Gives text origin (objectMember grammar) := by
  intro context start sound
  have trail := Trail.refl sound
  refine meets_startOffset (meets_atSign ?_)
  split
  · exact nests.spreadable context start sound
  refine trail.takeSign (fun state trail => nests.objectMethod nofun trail) ?_
  refine keeps_takeModifier.bind trail fun isAsync state trail => ?_
  split
  · exact keeps_takeSign.bind trail fun isGenerator state trail => nests.objectMethod nofun trail
  refine keeps_takeModifier.bind trail fun isGetter state trail => ?_
  split
  · exact nests.objectMethod nofun trail
  refine keeps_takeModifier.bind trail fun isSetter state trail => ?_
  split
  · exact nests.objectMethod nofun trail
  · exact nests.plainMember.meets trail fun member state trail => trail.weaken

theorem objectLiteral : Gives text origin (objectLiteral grammar) := by
  intro context start sound
  refine meets_startOffset (meets_bind ((Trail.refl sound).meets_expectSign ?_))
  intro opens opened own stop_eq
  refine meets_bind (((closes_commaList nests.objectMember).within context opened own.sound).mono ?_)
  intro members state closed
  exact own.list opens rfl rfl rfl stop_eq closed

theorem template {isTagged : Bool} : Gives text origin (template grammar isTagged) := by
  intro context start sound
  refine meets_startOffset (meets_bind (meets_loop
    (fun round state => Trail text origin start false round.2 state) (.refl sound) ?_))
  intro round state trail
  obtain ⟨pieces, items⟩ := round
  refine meets_peek ?_
  dsimp only
  split
  · rename_i raw isValid isLast kind_eq
    refine meets_forbid fun _ => trail.advance (by simp [kind_eq]) fun state trail => ?_
    split
    · refine meets_pure ?_
      exact trail.node rfl
    · refine nests.expression.bracketed.bind trail fun value state trail => meets_peek ?_
      refine meets_require fun is_brace => ?_
      split
      · exact meets_throw
      · rename_i token lexed
        exact meets_modify (meets_pure
          (trail.weaken.retoken (.template (isSign_iff.1 is_brace) lexed)))
  · exact meets_unexpected

end Nests

theorem Sound.regex (sound : Sound text origin start)
    (is_slash : start.token.kind = .sign "/" ∨ start.token.kind = .sign "/=") :
    Meets Reader.regex context start fun node after => Trail text origin start false [node] after := by
  refine meets_peek ?_
  split
  · exact meets_throw
  · rename_i token lexed
    obtain ⟨-, start_eq, live⟩ := Lexer.regexAt_liesIn sound.lies lexed
    have trail := (Trail.refl sound).retoken (.regex is_slash lexed)
    refine meets_modify ?_
    split
    · refine trail.advance live fun state trail => ?_
      rw [start_eq]
      exact trail.node rfl
    · exact meets_unexpected

namespace Nests

variable (nests : Nests text origin grammar)

include nests

theorem importArguments :
    Yields text origin (fun items => items) (importArguments grammar) := by
  intro context start sound
  refine (Trail.refl sound).expectSign fun state trail => meets_within ?_
  refine nests.assignment.bind trail fun specifier state trail => ?_
  refine keeps_takeSign.bind trail fun goesOn state trail => meets_atSign ?_
  have closes (options : List Node) {context : ReadContext} {state : ReadState}
      (trail : Trail text origin start true ([specifier] ++ options) state) :
      Meets (do let _ ← takeSign ","; expectSign ")"; pure (specifier :: options)) context state
        fun items after => Trail text origin start false items after := by
    refine keeps_takeSign.bind trail fun _ state trail => ?_
    exact trail.expectSign fun state trail => meets_pure trail.weaken
  dsimp only
  split
  · exact meets_bind (meets_pure (closes [] (by simpa using trail)))
  · exact nests.assignment.bind trail fun options state trail =>
      meets_bind (meets_pure (closes [options] trail))

theorem importExpression : Gives text origin (importExpression grammar) := by
  intro context start sound
  refine meets_startOffset ((Trail.refl sound).expectWord fun state trail => ?_)
  refine trail.takeSign (fun state trail => ?_) ?_
  · refine takes_word.bind trail fun property state trail => ?_
    split
    · refine (keeps_modify).bind trail fun _ state trail => ?_
      exact trail.node rfl
    split
    · refine nests.importArguments.bind trail fun items state trail => ?_
      exact trail.node rfl
    · exact meets_unexpected
  · refine nests.importArguments.bind trail fun items state trail => ?_
    exact trail.node rfl

theorem asyncOperand {state : ReadState} (sound : Sound text origin state)
    (live : state.token.kind ≠ .finish) :
    Meets (asyncOperand grammar) context state fun node after =>
      Trail text origin state false [node] after := by
  refine meets_startOffset (meets_peekSecond ?_)
  split
  · exact (Trail.refl sound).advance live fun after trail => nests.functionFrom trail
  · exact gives_reference context state sound

theorem wordOperand {word : String} {state : ReadState} (sound : Sound text origin state)
    (live : state.token.kind ≠ .finish) :
    Meets (wordOperand grammar word) context state fun node after =>
      Trail text origin state false [node] after := by
  have trail := Trail.refl sound
  have keyword : Meets (do advance; node state.token.span.start (.keyword word) []) context state
      fun node after => Trail text origin state false [node] after :=
    trail.advance live fun after trail => trail.node rfl
  refine meets_startOffset ?_
  split
  · exact nests.functionFrom trail
  · exact nests.classFrom trail
  · exact nests.asyncOperand sound live
  · exact keyword
  · exact keyword
  · exact keyword
  · exact keyword
  · refine trail.advance live fun after trail => ?_
    exact meets_atSign (meets_atSign (meets_atSign (meets_require fun _ => trail.node rfl)))
  · exact gives_reference context state sound

theorem operand : Gives text origin (operand grammar) := by
  intro context start sound
  have trail := Trail.refl sound
  refine meets_peek ?_
  dsimp only
  split
  · rename_i word isEscaped kind_eq
    split
    · exact gives_reference context start sound
    · exact nests.wordOperand sound (by simp [kind_eq])
  · rename_i kind_eq
    exact trail.advance (by simp [kind_eq]) fun state trail => trail.node rfl
  · rename_i kind_eq
    exact trail.advance (by simp [kind_eq]) fun state trail => trail.node rfl
  · exact nests.template context start sound
  · rename_i kind_eq
    refine trail.advance (by simp [kind_eq]) fun state trail => ?_
    refine nests.expression.bracketed.bind trail fun inner state trail => ?_
    exact trail.expectSign fun state trail => trail.node rfl
  · exact nests.arrayLiteral context start sound
  · exact nests.objectLiteral context start sound
  · rename_i kind_eq
    exact sound.regex (.inl kind_eq)
  · rename_i kind_eq
    exact sound.regex (.inr kind_eq)
  · refine nests.decorators.bind trail fun marks state trail => ?_
    exact nests.classFrom trail
  · exact meets_unexpected

/-! ## Members and calls -/

omit nests in
theorem memberName {object : Node} {isOptional : Bool}
    (trail : Trail text origin start true [object] state) :
    Meets (memberName start.token.span.start object isOptional) context state fun node after =>
      Trail text origin start false [node] after := by
  refine meets_peek ?_
  split
  · rename_i kind_eq
    exact trail.advance (by simp [kind_eq]) fun state trail => trail.node rfl
  · exact takes_word.bind trail fun word state trail => trail.node rfl

theorem indexRest {object : Node} {isOptional : Bool}
    (trail : Trail text origin start true [object] state) :
    Meets (indexRest grammar start.token.span.start object isOptional) context state
      fun node after => Trail text origin start false [node] after := by
  refine trail.expectSign fun state trail => ?_
  refine nests.expression.bracketed.bind trail fun key state trail => ?_
  exact trail.expectSign fun state trail => trail.node rfl

theorem callRest {callee : Node} {isOptional : Bool}
    (trail : Trail text origin start true [callee] state) :
    Meets (callRest grammar start.token.span.start callee isOptional) context state
      fun node after => Trail text origin start false [node] after := by
  refine trail.expectSign fun state trail => ?_
  refine nests.argumentsRest.yields.bind trail fun items state trail => ?_
  exact trail.node rfl

theorem optionalLink {object : Node} (trail : Trail text origin start true [object] state) :
    Meets (optionalLink grammar start.token.span.start object) context state
      fun node after => Trail text origin start false [node] after := by
  refine meets_atSign ?_
  split
  · exact nests.callRest trail
  refine meets_atSign ?_
  split
  · exact nests.indexRest trail
  · exact memberName trail

/-- A link is the object of the next one. -/
theorem links {allowsCalls : Bool} {base : Node}
    (trail : Trail text origin start true [base] state) :
    Meets (links grammar allowsCalls start.token.span.start base) context state
      fun node after => Trail text origin start false [node] after := by
  refine meets_loop (fun round state => Trail text origin start true [round.1] state) trail ?_
  intro round state trail
  obtain ⟨object, hasOptional⟩ := round
  refine meets_peek (meets_read ?_)
  dsimp only
  split
  · rename_i is_dot
    refine trail.advance (by simp [isSign_iff.1 is_dot]) fun state trail => ?_
    exact meets_bind ((memberName trail).mono fun link state trail =>
      meets_pure (trail.moves List.mem_cons_self))
  split
  · rename_i is_link
    refine meets_require fun _ => ?_
    refine trail.advance (by simp [isSign_iff.1 is_link]) fun state trail => ?_
    exact meets_bind ((nests.optionalLink trail).mono fun link state trail =>
      meets_pure (trail.moves List.mem_cons_self))
  split
  · exact meets_bind ((nests.indexRest trail).mono fun link state trail =>
      meets_pure (trail.moves List.mem_cons_self))
  split
  · exact meets_bind ((nests.callRest trail).mono fun link state trail =>
      meets_pure (trail.moves List.mem_cons_self))
  split
  · refine meets_forbid fun _ => nests.template.bind trail fun quasi state trail => ?_
    exact meets_bind ((trail.node rfl).mono fun link state trail =>
      meets_pure (trail.moves List.mem_cons_self))
  split
  · exact meets_bind ((trail.node rfl).mono fun chain state trail => meets_pure trail)
  · exact meets_pure trail.weaken

theorem construction : Gives text origin (construction grammar) := by
  intro context start sound
  refine meets_startOffset ((Trail.refl sound).expectWord fun state trail => ?_)
  refine trail.takeSign (fun state trail => trail.expectWord fun state trail => trail.node rfl) ?_
  refine nests.callee.bind trail fun callee state trail => ?_
  refine trail.takeSign (fun state trail => ?_) (trail.node rfl)
  refine nests.argumentsRest.yields.bind trail fun items state trail => ?_
  exact trail.node rfl

theorem calleeProduction : Gives text origin (calleeProduction grammar) := by
  intro context start sound
  have trail := Trail.refl sound
  refine meets_startOffset (meets_peekSecond (meets_atWord ?_))
  dsimp only
  refine meets_forbid fun _ => meets_atWord ?_
  split
  · exact nests.construction.bind trail fun base state trail => nests.links trail
  refine meets_atWord ?_
  split
  · exact nests.importExpression.bind trail fun base state trail => nests.links trail
  · exact nests.operand.bind trail fun base state trail => nests.links trail

theorem leftHandProduction : Gives text origin (leftHandProduction grammar) := by
  intro context start sound
  have trail := Trail.refl sound
  refine meets_startOffset (meets_atWord ?_)
  split
  · exact nests.construction.bind trail fun base state trail => nests.links trail
  refine meets_atWord ?_
  split
  · exact nests.importExpression.bind trail fun base state trail => nests.links trail
  · exact nests.operand.bind trail fun base state trail => nests.links trail

end Nests

/-! ## Operators -/

section Targets

variable {β : Type} {next : Node → Reader β} {last : β → ReadState → Prop} {expression : Node}

theorem Trail.exchange {goal : Node} (trail : Trail text origin start moved [expression] state)
    (replaced : goal.Replaces text expression)
    (kept : ∀ offsets, expression.BeginsIn offsets → goal.BeginsIn offsets) :
    Trail text origin start moved [goal] state :=
  { trail with
    row := trail.row.exchange [] replaced
    roots := trail.roots.map fun offsets begin_in => List.forall_mem_singleton.2
      (kept offsets (List.forall_mem_singleton.1 begin_in)) }

/-- What an operator steps takes the place of the expression before it. -/
theorem Trail.simpleTarget (trail : Trail text origin start moved [expression] state)
    (rest : ∀ goal, Trail text origin start moved [goal] state →
      Meets (next goal) context state last) :
    Meets (Reader.simpleTarget expression >>= next) context state last := by
  unfold Reader.simpleTarget
  have spaced := trail.row.spaced expression List.mem_cons_self
  split
  · rename_i goal found
    exact meets_bind (meets_pure (rest goal (trail.exchange (simpleTarget?_replaces spaced found)
      fun _ begins => begins.simpleTarget? found)))
  · exact meets_bind meets_failAt

/-- What is assigned to takes the place of the expression before the operator. -/
theorem Trail.target (trail : Trail text origin start moved [expression] state)
    (rest : ∀ goal, Trail text origin start moved [goal] state →
      Meets (next goal) context state last) :
    Meets (Reader.target expression >>= next) context state last := by
  unfold Reader.target
  have spaced := trail.row.spaced expression List.mem_cons_self
  split
  · rename_i goal found
    exact meets_bind (meets_pure (rest goal (trail.exchange (target?_replaces spaced found)
      fun _ begins => begins.target? found)))
  · exact meets_bind meets_failAt

end Targets

theorem live_of_binaryOperator {allowsIn : Bool} {token : Token} {operator : BinaryOperator}
    (found : binaryOperator? allowsIn token = some operator) : token.kind ≠ .finish := by
  intro finish
  simp [binaryOperator?, finish] at found

theorem live_of_assignmentOperator {token : Token} {operator : String}
    (found : assignmentOperator? token = some operator) : token.kind ≠ .finish := by
  intro finish
  simp [assignmentOperator?, finish] at found

namespace Nests

variable (nests : Nests text origin grammar)

include nests

theorem postfixOperand : Gives text origin (postfixOperand grammar) := by
  intro context start sound
  refine meets_startOffset (nests.leftHand.bind (.refl sound) fun inner state trail => ?_)
  refine meets_peek ?_
  dsimp only
  split
  · rename_i steps
    have live : state.token.kind ≠ .finish := by
      simp only [Bool.and_eq_true, Bool.or_eq_true] at steps
      obtain is_sign | is_sign := steps.1 <;> simp [isSign_iff.1 is_sign]
    refine trail.simpleTarget fun goal trail => ?_
    exact trail.advance live fun state trail => trail.node rfl
  · exact meets_pure trail.weaken

theorem awaitOperand {state : ReadState} (sound : Sound text origin state)
    (live : state.token.kind ≠ .finish) :
    Meets (awaitOperand grammar) context state fun node after =>
      Trail text origin state false [node] after := by
  refine meets_startOffset (meets_read (meets_peekSecond ?_))
  dsimp only
  split
  · have awaited {after : ReadState} (trail : Trail text origin state true [] after) :
        Meets (do let inner ← grammar.unary; node state.token.span.start .await [inner]) context after
          fun node after => Trail text origin state false [node] after :=
      nests.unary.bind trail fun inner after trail => trail.node rfl
    refine (Trail.refl sound).advance live fun after trail => ?_
    split
    · exact awaited trail
    · exact (keeps_modify).bind trail fun _ after trail => awaited trail
  · exact nests.postfixOperand context state sound

theorem unaryProduction : Gives text origin (unaryProduction grammar) := by
  intro context start sound
  have prefixed (live : start.token.kind ≠ .finish) (operator : String) :
      Meets (do
        advance
        let inner ← grammar.unary
        node start.token.span.start (.unary operator) [inner]) context start
        fun node after => Trail text origin start false [node] after :=
    (Trail.refl sound).advance live fun state trail =>
      nests.unary.bind trail fun inner state trail => trail.node rfl
  have stepped (live : start.token.kind ≠ .finish) (operator : String) :
      Meets (do
        advance
        let goal ← simpleTarget (← grammar.unary)
        node start.token.span.start (.update operator true) [goal]) context start
        fun node after => Trail text origin start false [node] after :=
    (Trail.refl sound).advance live fun state trail =>
      nests.unary.bind trail fun inner state trail =>
        trail.simpleTarget fun goal trail => trail.node rfl
  refine meets_peek ?_
  dsimp only
  split
  case h_11 => exact nests.postfixOperand context start sound
  case h_10 =>
    rename_i kind_eq
    exact nests.awaitOperand sound (by simp [kind_eq])
  all_goals
    rename_i kind_eq
    have live : start.token.kind ≠ .finish := by simp [kind_eq]
  · exact prefixed live "+"
  · exact prefixed live "-"
  · exact prefixed live "!"
  · exact prefixed live "~"
  · exact stepped live "++"
  · exact stepped live "--"
  · exact prefixed live "delete"
  · exact prefixed live "typeof"
  · exact prefixed live "void"

theorem rowOperand : Gives text origin (rowOperand grammar) := by
  intro context start sound
  refine meets_peek ?_
  split
  · rename_i kind_eq
    refine (Trail.refl sound).advance (by simp [kind_eq]) fun state trail => ?_
    exact meets_atWord (meets_read (meets_require fun _ => trail.node rfl))
  · exact nests.unary context start sound

theorem row : Gives text origin (row grammar) := by
  intro context start sound
  refine nests.rowOperand.bind (.refl sound) fun first state trail => ?_
  refine meets_bind (meets_loop (fun items state =>
    Trail text origin start true ([first] ++ items.map (·.2)) state) (by simpa using trail) ?_)
  intro items state trail
  refine meets_read (meets_peek ?_)
  split
  · rename_i operator found
    refine trail.advance (live_of_binaryOperator found) fun state trail => ?_
    split
    · exact nests.rowOperand.bind trail fun operand state trail =>
        meets_pure (by simpa using trail)
    · exact nests.unary.bind trail fun operand state trail => meets_pure (by simpa using trail)
  · refine meets_pure ?_
    dsimp only
    split
    · rename_i tree assembled
      refine meets_pure
        { trail.weaken with
          row := BinaryOperator.assemble_inRow assembled trail.row
          roots := trail.roots.map fun _ begin_in => List.forall_mem_singleton.2 ?_ }
      obtain ⟨first_begins, others_begin⟩ := List.forall_mem_cons.1 begin_in
      exact BinaryOperator.holds_assemble (fun _ _ _ => BeginsIn.binary) assembled
        (List.forall_mem_nil _) first_begins fun step listed =>
          others_begin _ (List.mem_map_of_mem listed)
    · exact meets_failAt

theorem conditional : Gives text origin (conditional grammar) := by
  intro context start sound
  refine meets_startOffset (nests.row.bind (.refl sound) fun test state trail => ?_)
  refine trail.takeSign (fun state trail => ?_) (meets_pure trail.weaken)
  refine nests.assignment.bracketed.bind trail fun first state trail => ?_
  refine trail.expectSign fun state trail => ?_
  refine nests.assignment.bind trail fun second state trail => ?_
  exact trail.node rfl

end Nests

/-! ## Arrow functions and assignments -/

theorem takes_arrow : Takes text origin arrow := by
  intro context start sound
  refine meets_peek (meets_forbid fun _ => ?_)
  exact takes_expectSign context start sound

theorem gives_singleParameter : Gives text origin singleParameter := by
  intro context start sound
  refine meets_startOffset (gives_binding.bind (.refl sound) fun only state trail => ?_)
  exact trail.node rfl

theorem gives_arrowHead {inputs : Reader Node} (gives : Gives text origin inputs) :
    Gives text origin (arrowHead inputs) := by
  intro context start sound
  refine gives.bind (.refl sound) fun inputs state trail => ?_
  exact takes_arrow.bind trail fun _ state trail => meets_pure trail.weaken

/-- A reader that may leave a tree. -/
theorem yields_attempt {reader : Reader Node} (gives : Gives text origin reader) :
    Yields text origin Option.toList (attempt reader) :=
  fun context state sound => meets_attempt (gives context state sound) (.refl sound)

namespace Nests

variable (nests : Nests text origin grammar)

include nests

theorem asyncHead? {state : ReadState} (sound : Sound text origin state)
    (live : state.token.kind ≠ .finish) :
    Meets (asyncHead? grammar) context state fun head after =>
      Trail text origin state false head.toList after := by
  refine meets_peekSecond ?_
  dsimp only
  split
  · exact meets_pure (.refl sound)
  · rename_i inputs found
    have gives : Gives text origin inputs := by
      split at found
      · contradiction
      split at found
      · contradiction
      split at found
      · exact Option.some.inj found ▸ gives_singleParameter
      split at found
      · exact Option.some.inj found ▸ nests.parameters
      · contradiction
    refine meets_attempt ?_ (.refl sound)
    refine (Trail.refl sound).advance live fun after trail => ?_
    exact (gives_arrowHead gives).within.meets trail fun head after trail => trail.weaken

theorem arrowHead? :
    Yields text origin (fun head => head.toList.map (·.1)) (arrowHead? grammar) := by
  intro context start sound
  have head {inputs : Reader Node} {state : ReadState} (gives : Gives text origin inputs)
      (trail : Trail text origin start false [] state) :
      Meets (do return (← attempt (arrowHead inputs)).map (·, false)) context state
        fun head after => Trail text origin start false (head.toList.map (·.1)) after := by
    refine (yields_attempt (gives_arrowHead gives)).bind trail fun head state trail => meets_pure ?_
    cases head with
    | none => exact trail
    | some inputs => exact trail
  have plain {state : ReadState} (trail : Trail text origin start false [] state) :
      Meets (do
        let second ← peekSecond
        if isName start.token && second.any fun second => isSign second "=>" && !second.opensLine then
          return (← attempt (arrowHead singleParameter)).map (·, false)
        else if isSign start.token "(" && second.any beginsParameter then
          return (← attempt (arrowHead (Reader.parameters grammar))).map (·, false)
        else
          return none) context state
        fun head after => Trail text origin start false (head.toList.map (·.1)) after := by
    refine meets_peekSecond ?_
    split
    · exact head gives_singleParameter trail
    split
    · exact head nests.parameters trail
    · exact meets_pure trail
  refine meets_peek ?_
  dsimp only
  split
  · rename_i is_async
    refine meets_bind ((nests.asyncHead? sound (by simp [isWord_iff.1 is_async])).mono ?_)
    intro head state trail
    cases head with
    | none => exact plain trail
    | some inputs => exact meets_pure trail
  · exact plain (.refl sound)

theorem arrowBody {inputs : Node} {isAsync : Bool}
    (trail : Trail text origin start true [inputs] state) :
    Meets (arrowBody grammar start.token.span.start inputs isAsync) context state
      fun node after => Trail text origin start false [node] after := by
  refine meets_read (meets_atSign ?_)
  split
  · exact nests.functionBody.within.bind trail fun body state trail => trail.node rfl
  · have body_trail := Trail.refl trail.sound
    refine meets_startOffset ?_
    refine nests.assignment.within.bind body_trail fun value state body_trail => ?_
    refine meets_bind (meets_node (meets_bind (meets_node ?_)))
    exact (trail.trans ((body_trail.whole rfl).whole rfl)).node rfl

theorem yieldExpression : Gives text origin (yieldExpression grammar) := by
  intro context start sound
  refine meets_startOffset ((Trail.refl sound).expectWord fun state trail => meets_peek ?_)
  split
  · rename_i delegates
    simp only [Bool.and_eq_true] at delegates
    refine trail.advance (by simp [isSign_iff.1 delegates.1]) fun state trail => ?_
    exact nests.assignment.bind trail fun value state trail => trail.node rfl
  split
  · exact trail.node rfl
  · exact nests.assignment.bind trail fun value state trail => trail.node rfl

theorem assignmentProduction : Gives text origin (assignmentProduction grammar) := by
  intro context start sound
  refine meets_startOffset (nests.arrowHead?.bind (.refl sound) fun head state trail => ?_)
  cases head with
  | some head => exact nests.arrowBody (trail.moves List.mem_cons_self)
  | none =>
      refine meets_atWord (meets_read ?_)
      split
      · exact nests.yieldExpression.meets trail fun node state trail => trail.weaken
      refine nests.conditional.bind trail fun left state trail => meets_peek ?_
      split
      · exact meets_pure trail.weaken
      · rename_i operator found
        have assigns {goal : Node} (trail : Trail text origin start true [goal] state) :
            Meets (do
              advance
              let value ← grammar.assignment
              node start.token.span.start (.assignment operator) [goal, value]) context state
              fun node after => Trail text origin start false [node] after :=
          trail.advance (live_of_assignmentOperator found) fun state trail =>
            nests.assignment.bind trail fun value state trail => trail.node rfl
        dsimp only
        split
        · exact trail.target fun goal trail => assigns trail
        · exact trail.simpleTarget fun goal trail => assigns trail

end Nests

end Reader
end Shakedown
