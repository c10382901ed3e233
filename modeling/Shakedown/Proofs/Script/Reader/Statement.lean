import Shakedown.Proofs.Script.Reader.ModuleItem
import Shakedown.Script.Reader.Statement

/-!
# Statements spaced out

Every statement leaves one tree. The words that begin a declaration are counted before they are
read, so it has to be known that they are there.
-/

namespace Shakedown
namespace Reader

open Node Text

variable {text : List Char} {origin : Nat} {grammar : Grammar} {start state : ReadState}
  {moved : Bool} {nodes : List Node} {context : ReadContext}

/-! ## Variables -/

/-- The text goes on for one or two words. -/
def GoesOn (words : Nat) (state : ReadState) : Prop :=
  state.token.kind ≠ .finish ∧
    (words = 1 ∨ words = 2 ∧ ∃ second, secondToken state = some second ∧ second.kind ≠ .finish)

theorem meets_peekThird {β : Type} {next : Option Token → Reader β} {last : β → ReadState → Prop}
    (meets : ∀ third, Meets (next third) context state last) :
    Meets (peekThird >>= next) context state last := by
  refine meets_bind ?_
  intro third after run
  unfold peekThird at run
  split at run
  · obtain ⟨rfl, rfl⟩ := Prod.mk.inj (Except.ok.inj run)
    exact meets _
  · obtain ⟨rfl, rfl⟩ := Prod.mk.inj (Except.ok.inj run)
    exact meets _

/-- Asking for a declaration reads nothing, and its words come next. -/
theorem meets_variableForm? {post : Option (VariableForm × Nat) → ReadState → Prop}
    (found : ∀ form words, GoesOn words state → post (some (form, words)) state)
    (none_found : post none state) : Meets variableForm? context state post := by
  refine meets_peek (meets_peekSecond ?_)
  have one {form : VariableForm} (live : state.token.kind ≠ .finish) : post (some (form, 1)) state :=
    found form 1 ⟨live, .inl rfl⟩
  dsimp only
  split
  · rename_i kind_eq
    exact meets_pure (one (by simp [kind_eq]))
  · rename_i kind_eq
    exact meets_pure (one (by simp [kind_eq]))
  · rename_i kind_eq
    refine meets_pure ?_
    split
    · exact one (by simp [kind_eq])
    · exact none_found
  · rename_i kind_eq
    refine meets_pure ?_
    split
    · exact one (by simp [kind_eq])
    · exact none_found
  · rename_i kind_eq
    refine meets_read ?_
    split
    · rename_i goes
      obtain ⟨second, second_eq, is_using⟩ : ∃ second, secondToken state = some second ∧
          isWord second "using" := by
        obtain ⟨-, some_second⟩ := Bool.and_eq_true_iff.1 goes
        obtain ⟨second, second_eq, is_second⟩ := (Option.any_eq_true _ _).1 some_second
        exact ⟨second, second_eq, (Bool.and_eq_true_iff.1 is_second).1⟩
      refine meets_peekThird fun third => meets_pure ?_
      split
      · exact found .awaitUsing 2 ⟨by simp [kind_eq], .inr ⟨rfl, second, second_eq, by
          simp [isWord_iff.1 is_using]⟩⟩
      · exact none_found
    · exact meets_pure none_found
  · exact meets_pure none_found

theorem Trail.skipWords {words : Nat} (trail : Trail text origin start moved nodes state)
    (goes : GoesOn words state) : Meets (Reader.skipWords words) context state fun _ after =>
      Trail text origin start true nodes after := by
  obtain ⟨live, rfl | ⟨rfl, second, second_eq, second_live⟩⟩ := goes
  · exact trail.advance live fun state trail => meets_pure trail
  · refine meets_bind (trail.meets_advance live fun state trail _ next_eq => ?_)
    obtain rfl := Option.some.inj (second_eq.symm.trans next_eq)
    exact trail.advance second_live fun state trail => meets_pure trail

namespace Nests

variable (nests : Nests text origin grammar)

include nests

theorem declarator : Gives text origin (declarator grammar) := by
  intro context start sound
  refine meets_startOffset (nests.pattern.bind (.refl sound) fun pattern state trail => ?_)
  refine trail.takeSign (fun state trail => ?_) (trail.node rfl)
  exact nests.assignment.bind trail fun value state trail => trail.node rfl

theorem declarators : Yields text origin (fun items => items) (declarators grammar) := by
  intro context start sound
  refine nests.declarator.bind (.refl sound) fun first state trail => ?_
  refine meets_loop (fun items state => Trail text origin start true items state) trail ?_
  intro items state trail
  refine trail.takeSign (fun state trail => ?_) (meets_pure trail.weaken)
  exact nests.declarator.bind trail fun item state trail => meets_pure trail

theorem variableStatement {form : VariableForm} {words : Nat} {state : ReadState}
    (sound : Sound text origin state) (goes : GoesOn words state) :
    Meets (variableStatement grammar form words) context state fun node after =>
      Trail text origin state false [node] after := by
  refine meets_startOffset (meets_bind (((Trail.refl sound).skipWords goes).mono ?_))
  intro _ after trail
  refine nests.declarators.bind trail fun items after trail => ?_
  refine meets_require fun _ => ?_
  exact keeps_semicolon.bind trail fun _ after trail => trail.node rfl

/-! ## Control flow -/

theorem condition : Gives text origin (condition grammar) := by
  intro context start sound
  refine (Trail.refl sound).expectSign fun state trail => ?_
  refine nests.expression.bracketed.bind trail fun test state trail => ?_
  exact trail.expectSign fun state trail => meets_pure trail.weaken

theorem block : Gives text origin (block grammar) := by
  intro context start sound
  refine meets_startOffset ((Trail.refl sound).expectSign fun state trail => ?_)
  refine (nests.statementList closesBlock).bind trail fun items state trail => ?_
  exact trail.expectSign fun state trail => trail.node rfl

theorem ifStatement : Gives text origin (ifStatement grammar) := by
  intro context start sound
  refine meets_startOffset ((Trail.refl sound).expectWord fun state trail => ?_)
  refine nests.condition.bind trail fun test state trail => ?_
  refine (nests.statement true).bind trail fun first state trail => ?_
  refine trail.takeWord (fun state trail => ?_) (trail.node rfl)
  exact (nests.statement true).bind trail fun second state trail => trail.node rfl

theorem loopOver {head : Node} {isAwait : Bool}
    (trail : Trail text origin start true [head] state) :
    Meets (loopOver grammar start.token.span.start head isAwait) context state fun node after =>
      Trail text origin start false [node] after := by
  refine trail.takeWord (fun state trail => ?_) ?_
  · refine nests.assignment.bracketed.bind trail fun items state trail => ?_
    refine trail.expectSign fun state trail => ?_
    exact (nests.statement true).bind trail fun body state trail => trail.node rfl
  · refine meets_forbid fun _ => trail.expectWord fun state trail => ?_
    refine nests.expression.bracketed.bind trail fun object state trail => ?_
    refine trail.expectSign fun state trail => ?_
    exact (nests.statement true).bind trail fun body state trail => trail.node rfl

theorem loopPart {close : String} : Yields text origin (fun part => part) (loopPart grammar close) := by
  intro context start sound
  refine (Trail.refl sound).takeSign (fun state trail => meets_pure trail.weaken) ?_
  refine nests.expression.bracketed.bind (.refl sound) fun part state trail => ?_
  exact trail.expectSign fun state trail => meets_pure trail.weaken

theorem loopWhile {first : List Node} (trail : Trail text origin start true first state) :
    Meets (loopWhile grammar start.token.span.start first) context state fun node after =>
      Trail text origin start false [node] after := by
  refine trail.expectSign fun state trail => ?_
  refine nests.loopPart.bind trail fun test state trail => ?_
  refine nests.loopPart.bind trail fun update state trail => ?_
  exact (nests.statement true).bind trail fun body state trail => trail.node rfl

theorem declaringLoop {isAwait : Bool} {form : VariableForm} {words : Nat}
    (trail : Trail text origin start true [] state) (goes : GoesOn words state) :
    Meets (declaringLoop grammar start.token.span.start isAwait form words) context state
      fun node after => Trail text origin start false [node] after := by
  have own := Trail.refl trail.sound
  refine meets_startOffset (meets_bind ((own.skipWords goes).mono fun _ after own => ?_))
  refine nests.declarators.within.bind own fun items after own => ?_
  refine meets_bind (meets_node ?_)
  have trail : Trail text origin start true
      [.mk (.variables form) ⟨state.token.span.start, after.lastStop⟩ items] after :=
    trail.trans (own.whole rfl)
  refine meets_atWord (meets_atWord ?_)
  dsimp only
  split
  · split
    · exact nests.loopOver trail
    · refine meets_atWord ?_
      split
      · exact nests.loopOver trail
      · exact meets_unexpected
    · exact meets_unexpected
  · exact meets_forbid fun _ => meets_require fun _ => nests.loopWhile trail

theorem forLoop : Gives text origin (forLoop grammar) := by
  intro context start sound
  refine meets_startOffset ((Trail.refl sound).expectWord fun state trail => ?_)
  refine keeps_takeWord.bind trail fun isAwait state trail => meets_read ?_
  extract_lets counts rest
  have continues {state : ReadState} (trail : Trail text origin start true [] state) :
      Meets (rest ()) context state fun node after => Trail text origin start false [node] after := by
    refine trail.expectSign fun state trail => meets_atSign ?_
    split
    · exact meets_forbid fun _ => nests.loopWhile trail
    refine meets_bind (meets_variableForm? (fun form words goes => ?_) ?_)
    · exact nests.declaringLoop trail goes
    · refine meets_atWord (meets_peekSecond ?_)
      refine nests.expression.within.bind trail fun first state trail => meets_atWord ?_
      refine meets_forbid fun _ => meets_atWord (meets_atWord ?_)
      dsimp only
      split
      · exact trail.target fun goal trail => nests.loopOver trail
      · exact meets_forbid fun _ => nests.loopWhile trail
  split
  · exact (keeps_modify).bind trail fun _ state trail => continues trail
  · exact continues trail

theorem whileLoop : Gives text origin (whileLoop grammar) := by
  intro context start sound
  refine meets_startOffset ((Trail.refl sound).expectWord fun state trail => ?_)
  refine nests.condition.bind trail fun test state trail => ?_
  exact (nests.statement true).bind trail fun body state trail => trail.node rfl

theorem doLoop : Gives text origin (doLoop grammar) := by
  intro context start sound
  refine meets_startOffset ((Trail.refl sound).expectWord fun state trail => ?_)
  refine (nests.statement true).bind trail fun body state trail => ?_
  refine trail.expectWord fun state trail => ?_
  refine nests.condition.bind trail fun test state trail => ?_
  exact keeps_takeSign.bind trail fun _ state trail => trail.node rfl

theorem withStatement : Gives text origin (withStatement grammar) := by
  intro context start sound
  refine meets_startOffset ((Trail.refl sound).expectWord fun state trail => ?_)
  refine nests.condition.bind trail fun object state trail => ?_
  exact (nests.statement true).bind trail fun body state trail => trail.node rfl

theorem switchCase : Gives text origin (switchCase grammar) := by
  intro context start sound
  refine meets_startOffset (keeps_takeWord.bind (.refl sound) fun isDefault state trail => ?_)
  extract_lets rest
  have closes {test : List Node} {state : ReadState} (trail : Trail text origin start false test state) :
      Meets (rest test) context state fun node after =>
        Trail text origin start false [node] after := by
    refine trail.expectSign fun state trail => ?_
    exact (nests.statementList closesCase).bind trail fun items state trail => trail.node rfl
  split
  · exact meets_bind (meets_pure (closes trail))
  · refine trail.expectWord fun state trail => ?_
    exact nests.expression.bracketed.bind trail fun test state trail =>
      meets_bind (meets_pure (closes trail.weaken))

theorem switchStatement : Gives text origin (switchStatement grammar) := by
  intro context start sound
  refine meets_startOffset ((Trail.refl sound).expectWord fun state trail => ?_)
  refine nests.condition.bind trail fun object state trail => ?_
  refine trail.expectSign fun state trail => ?_
  refine meets_bind (meets_loop (fun items state =>
    Trail text origin start true ([object] ++ items) state) (by simpa using trail) ?_)
  intro items state trail
  refine trail.takeSign (fun state trail => meets_pure (trail.node rfl)) ?_
  exact nests.switchCase.bind trail fun item state trail => meets_pure (by simpa using trail)

theorem catchClause : Gives text origin (catchClause grammar) := by
  intro context start sound
  refine meets_startOffset ((Trail.refl sound).expectWord fun state trail => ?_)
  refine trail.takeSign (fun state trail => ?_) ?_
  · refine nests.pattern.bind trail fun pattern state trail => ?_
    refine trail.expectSign fun state trail => meets_bind (meets_pure ?_)
    exact nests.block.bind trail fun body state trail => trail.node rfl
  · refine meets_bind (meets_pure ?_)
    exact nests.block.bind trail fun body state trail => trail.node rfl

theorem tryStatement : Gives text origin (tryStatement grammar) := by
  intro context start sound
  refine meets_startOffset ((Trail.refl sound).expectWord fun state trail => ?_)
  refine nests.block.bind trail fun body state trail => meets_atWord ?_
  refine nests.catchClause.optional trail fun handler state trail => ?_
  refine keeps_takeWord.bind trail fun isLast state trail => ?_
  refine nests.block.optional trail fun finalizer state trail => ?_
  exact meets_forbid fun _ => trail.node rfl

theorem returnStatement : Gives text origin (returnStatement grammar) := by
  intro context start sound
  refine meets_startOffset (meets_read (meets_require fun _ => ?_))
  refine (Trail.refl sound).expectWord fun state trail => meets_peek ?_
  have closes {value : List Node} {state : ReadState} (trail : Trail text origin start true value state) :
      Meets (do semicolon; node start.token.span.start .returnStatement value) context state
        fun node after => Trail text origin start false [node] after :=
    keeps_semicolon.bind trail fun _ state trail => trail.node rfl
  dsimp only
  split
  · exact meets_bind (meets_pure (closes trail))
  · exact nests.expression.bind trail fun value state trail => meets_bind (meets_pure (closes trail))

theorem throwStatement : Gives text origin (throwStatement grammar) := by
  intro context start sound
  refine meets_startOffset ((Trail.refl sound).expectWord fun state trail => meets_peek ?_)
  refine meets_forbid fun _ => nests.expression.bind trail fun value state trail => ?_
  exact keeps_semicolon.bind trail fun _ state trail => trail.node rfl

/-! ## Statements -/

theorem expressionStatement : Gives text origin (expressionStatement grammar) := by
  intro context start sound
  refine meets_peek (meets_peekSecond ?_)
  split
  · refine takes_name.bind (.refl sound) fun label state trail => ?_
    refine trail.expectSign fun state trail => ?_
    exact (nests.statement true).bind trail fun body state trail => trail.node rfl
  · refine nests.expression.bind (.refl sound) fun value state trail => ?_
    exact keeps_semicolon.bind trail fun _ state trail => trail.node rfl

end Nests

theorem keeps_jumpLabel? : Keeps text origin jumpLabel? := by
  intro context start sound
  refine meets_peek ?_
  split
  · exact takes_name.bind (.refl sound) fun label state trail => meets_pure trail.weaken
  · exact meets_pure (.refl sound)

theorem meets_jump {kind : Option String → NodeKind} (plain : ∀ label, (kind label).arrangement = .row)
    {state : ReadState} (sound : Sound text origin state) (live : state.token.kind ≠ .finish) :
    Meets (jump kind) context state fun node after => Trail text origin state false [node] after := by
  refine meets_startOffset ((Trail.refl sound).advance live fun after trail => ?_)
  refine keeps_jumpLabel?.bind trail fun label after trail => ?_
  exact keeps_semicolon.bind trail fun _ after trail => trail.node (plain label)

namespace Nests

variable (nests : Nests text origin grammar)

include nests

theorem wordStatement {isSingle : Bool} {word : String} {state : ReadState}
    (sound : Sound text origin state) (live : state.token.kind ≠ .finish) :
    Meets (wordStatement grammar isSingle word) context state fun node after =>
      Trail text origin state false [node] after := by
  have trail := Trail.refl sound
  refine meets_startOffset ?_
  split
  · exact nests.ifStatement context state sound
  · exact nests.forLoop context state sound
  · exact nests.whileLoop context state sound
  · exact nests.doLoop context state sound
  · exact nests.withStatement context state sound
  · exact nests.switchStatement context state sound
  · exact nests.tryStatement context state sound
  · exact meets_jump (fun _ => rfl) sound live
  · exact meets_jump (fun _ => rfl) sound live
  · exact nests.returnStatement context state sound
  · exact nests.throwStatement context state sound
  · refine trail.advance live fun after trail => ?_
    exact keeps_semicolon.bind trail fun _ after trail => trail.node rfl
  · refine meets_bind ((nests.functionFrom trail).mono fun item after trail => ?_)
    split
    · exact meets_bind meets_failAt
    · exact meets_pure trail
  · refine meets_peekSecond ?_
    split
    · exact nests.expressionStatement context state sound
    · exact gives_importDeclaration context state sound
  · exact nests.exportItem context state sound
  · exact meets_forbid fun _ => nests.classFrom trail
  · refine meets_peekSecond ?_
    split
    · refine meets_forbid fun _ => trail.advance live fun after trail => ?_
      exact nests.functionFrom trail
    · exact nests.expressionStatement context state sound
  · exact nests.expressionStatement context state sound

theorem statementProduction {isSingle : Bool} :
    Gives text origin (statementProduction grammar isSingle) := by
  intro context start sound
  have trail := Trail.refl sound
  refine meets_peek ?_
  dsimp only
  split
  · exact nests.block context start sound
  · rename_i kind_eq
    exact trail.advance (by simp [kind_eq]) fun state trail => trail.node rfl
  · refine meets_forbid fun _ => nests.decorators.bind trail fun marks state trail => ?_
    exact nests.classFrom trail
  · rename_i kind_eq
    have live : start.token.kind ≠ .finish := by simp [kind_eq]
    refine meets_bind (meets_variableForm? (fun form words goes => ?_) ?_)
    · exact meets_forbid fun _ => nests.variableStatement sound goes
    · exact nests.wordStatement sound live
  · exact nests.expressionStatement context start sound

end Nests

end Reader
end Shakedown
