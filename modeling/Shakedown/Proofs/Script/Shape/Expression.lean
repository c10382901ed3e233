import Shakedown.Proofs.Script.Reader.Expression
import Shakedown.Proofs.Script.Shape.Function

/-!
# Expressions of the right shape

All expressions are values, and so are the trees that operands and targets are regrouped to.
-/

namespace Shakedown

open Node

/-! ## Trees grouped anew -/

namespace Node

variable {kind other : NodeKind} {span place : Span} {node target : Node} {children : List Node}

theorem IsValue.child (value : (mk kind span children).IsValue)
    (closed : kind.opensFunction = false) {inner : Node} (listed : inner ∈ children) :
    inner.IsValue :=
  ⟨value.1.child listed, value.1.formed.values value.2 closed inner listed⟩

/-- The same children under another kind. -/
theorem IsValue.rename (value : (mk kind span children).IsValue)
    (closed : kind.opensFunction = false)
    (other_value : other.isValue) (arranged : other.arrangement = kind.arrangement)
    (no_name : other.isName = false) : (mk other place children).IsValue :=
  .of_children other_value (fun _ listed => value.child closed listed)
    (fun named => value.1.formed.key (arranged.symm.trans named))
    fun is_name => absurd is_name (by simp [no_name])

theorem IsValue.simpleTarget? (value : node.IsValue) (found : node.simpleTarget? = some target) :
    target.IsValue := by
  induction node using Node.induction with
  | step kind span children ih =>
      unfold Node.simpleTarget? at found
      split at found
      · rename_i inner node_eq
        obtain ⟨rfl, rfl, rfl⟩ := Node.mk.inj node_eq
        exact ih inner List.mem_cons_self (value.child rfl List.mem_cons_self) found
      · rename_i node_eq
        obtain ⟨rfl, rfl, rfl⟩ := Node.mk.inj node_eq
        have kept : Node.mk kind span children = target := by
          split at found <;> simp_all
        exact kept ▸ value

theorem isValue_patternOf? {turn : Node → Option Node} (other_value : other.isValue)
    (row : other.isRow)
    (each : ∀ child ∈ children, ∀ part, turn child = some part → part.IsValue)
    (found : patternOf? other span (children.mapM turn) = some target) : target.IsValue := by
  obtain ⟨parts, parts_eq, found⟩ := Option.bind_eq_some_iff.1 found
  split at found
  · contradiction
  · obtain rfl := Option.some.inj found
    exact .of_row other_value row (holds_mapM each parts_eq)

theorem isValue_literal (value : node.IsValue)
    (elements : ∀ child ∈ node.children, ∀ part, child.elementTarget? = some part → part.IsValue)
    (members : ∀ child ∈ node.children, ∀ part, child.memberTarget? = some part → part.IsValue)
    (found : node.target? = some target) : target.IsValue := by
  unfold target? at found
  split at found
  · rw [elementTargets?_eq] at found
    exact isValue_patternOf? rfl rfl elements found
  · rw [memberTargets?_eq] at found
    exact isValue_patternOf? rfl rfl members found
  · exact Option.some.inj found ▸ value
  · exact Option.some.inj found ▸ value
  · exact value.simpleTarget? found

theorem isValue_element (value : node.IsValue)
    (targets : ∀ part, node.target? = some part → part.IsValue)
    (spread : node.kind.opensFunction = false → ∀ child ∈ node.children, ∀ part,
      child.target? = some part → part.IsValue)
    (found : node.elementTarget? = some target) : target.IsValue := by
  obtain rfl | ⟨span, children, rfl, rfl⟩ | ⟨span, inner, part, rfl, part_eq, rfl⟩ | found :=
    elementTarget?_cases found
  · exact value
  · exact value.rename rfl rfl rfl rfl
  · have part_value := spread rfl inner List.mem_cons_self part part_eq
    exact .of_row rfl rfl (List.forall_mem_singleton.2 part_value)
  · exact targets target found

theorem isValue_member (value : node.IsValue)
    (elements : node.kind.opensFunction = false → ∀ child ∈ node.children, ∀ part,
      child.elementTarget? = some part → part.IsValue)
    (found : node.memberTarget? = some target) : target.IsValue := by
  unfold memberTarget? at found
  split at found
  · rename_i isComputed span key inner
    obtain ⟨part, part_eq, rfl⟩ := Option.map_eq_some_iff.1 found
    have part_value := elements rfl inner (by simp [Node.children]) part part_eq
    have key_value := value.child rfl List.mem_cons_self
    exact .of_row rfl rfl (by simp [key_value, part_value])
  · rename_i isComputed span members
    exact Option.some.inj found ▸ value.rename rfl rfl rfl rfl
  · rename_i span key name standard
    obtain rfl := Option.some.inj found
    have below : ∀ inner ∈ [key, name, standard], inner.IsValue := fun _ => value.child rfl
    have pattern_value : (mk .withDefault span [name, standard]).IsValue :=
      .of_row rfl rfl fun inner listed => below inner (List.mem_cons_of_mem _ listed)
    exact .of_children rfl (by simp [below key List.mem_cons_self, pattern_value])
      (fun _ => value.1.formed.key rfl) fun named => absurd named Bool.false_ne_true
  · rename_i span inner
    obtain ⟨part, part_eq, rfl⟩ := Option.map_eq_some_iff.1 found
    have part_value := (value.child rfl List.mem_cons_self).simpleTarget? part_eq
    exact .of_row rfl rfl (List.forall_mem_singleton.2 part_value)
  · contradiction

/-- Whatever is read as the target of an assignment is a value. -/
theorem isValue_targets (node : Node) : node.IsValue →
    (∀ target, node.target? = some target → target.IsValue) ∧
    (∀ target, node.elementTarget? = some target → target.IsValue) ∧
    (∀ target, node.memberTarget? = some target → target.IsValue) := by
  induction node using Node.induction with
  | step kind span children ih =>
      intro value
      have of_child : kind.opensFunction = false → ∀ child ∈ children, _ :=
        fun closed child listed => ih child listed (value.child closed listed)
      have targets : ∀ target, (mk kind span children).target? = some target → target.IsValue := by
        intro target found
        by_cases closed : kind.opensFunction = false
        · exact isValue_literal value (fun child listed => (of_child closed child listed).2.1)
            (fun child listed => (of_child closed child listed).2.2) found
        · cases kind <;> first
            | exact absurd rfl closed
            | simp [target?, Node.simpleTarget?] at found
      exact ⟨targets,
        fun _ => isValue_element value targets fun closed child listed =>
          (of_child closed child listed).1,
        fun _ => isValue_member value fun closed child listed =>
          (of_child closed child listed).2.1⟩

end Node

namespace Reader

theorem leaves_simpleTarget {expression : Node} (value : expression.IsValue) :
    Leaves (simpleTarget expression) IsValue := by
  unfold simpleTarget
  split
  · exact leaves_pure (value.simpleTarget? ‹_›)
  · exact leaves_failAt

theorem leaves_target {expression : Node} (value : expression.IsValue) :
    Leaves (target expression) IsValue := by
  unfold target
  split
  · exact leaves_pure ((isValue_targets expression value).1 _ ‹_›)
  · exact leaves_failAt

theorem leaves_regex : Leaves regex IsValue := by
  refine .skip fun slash => ?_
  split
  · exact leaves_throw
  · refine .skip fun _ => ?_
    split
    · exact .skip fun _ => leaves_node fun _ => .leaf rfl
    · exact leaves_unexpected

theorem leaves_memberName {start : Nat} {object : Node} {isOptional : Bool}
    (object_value : object.IsValue) : Leaves (memberName start object isOptional) IsValue := by
  have all := List.forall_mem_singleton.2 object_value
  refine .skip fun token => ?_
  split
  · exact .skip fun _ => leaves_node fun _ => .of_row rfl rfl all
  · exact .skip fun _ => leaves_node fun _ => .of_row rfl rfl all

/-- The head of an arrow function has the parameters that it reads. -/
theorem leaves_arrowHead {inputs : Reader Node} {post : Node → Prop} (leaves : Leaves inputs post) :
    Leaves (arrowHead inputs) post :=
  leaves.bind fun _ holds => .skip fun _ => leaves_pure holds

theorem leaves_singleParameter :
    Leaves singleParameter fun inputs => inputs.IsShaped ∧ inputs.kind = .parameters := by
  refine .skip fun _ => leaves_binding.bind fun only only_value => leaves_node fun _ => ⟨?_, rfl⟩
  exact .of_children (List.forall_mem_singleton.2 only_value.plain) nofun nofun nofun

namespace Shapes

variable {grammar : Grammar} (shapes : Shapes grammar)

include shapes

/-! ## Operands -/

theorem expression : Leaves (expression grammar) IsValue := by
  refine .skip fun _ => shapes.assignment.bind fun first first_value => ?_
  refine (leaves_loop (fun items => ∀ item ∈ items, item.IsValue)
    (List.forall_mem_singleton.2 first_value) fun items all => ?_ :
      Leaves _ fun items : List Node => ∀ item ∈ items, item.IsValue).bind fun items all => ?_
  · refine .skip fun goesOn => ?_
    split
    · exact shapes.assignment.bind fun item item_value =>
        leaves_pure (forall_mem_snoc all item_value)
    · exact leaves_pure all
  · split
    · exact leaves_pure (all _ List.mem_cons_self)
    · exact leaves_node fun _ => .of_row rfl rfl all

theorem spreadable : Leaves (spreadable grammar) IsValue := by
  refine .skip fun _ => .skip fun spreads => ?_
  split
  · exact shapes.assignment.bind fun value value_holds =>
      leaves_node fun _ => .of_row rfl rfl (List.forall_mem_singleton.2 value_holds)
  · exact shapes.assignment

theorem argumentsRest :
    Leaves (argumentsRest grammar) fun items => ∀ item ∈ items, item.IsValue :=
  (leaves_commaList shapes.spreadable).bracketed

theorem arrayLiteral : Leaves (arrayLiteral grammar) IsValue := by
  refine .skip fun _ => .skip fun _ => ?_
  refine (Leaves.bracketed (leaves_loop (fun items => ∀ item ∈ items, item.IsValue)
    (List.forall_mem_nil _) fun items all => ?_) :
      Leaves _ fun items : List Node => ∀ item ∈ items, item.IsValue).bind fun items all =>
        leaves_node fun _ => .of_row rfl rfl all
  refine .skip fun closes => ?_
  split
  · exact leaves_pure all
  refine .skip fun token => ?_
  dsimp only
  split
  · exact .skip fun _ => leaves_pure (forall_mem_snoc all (.leaf rfl))
  · refine shapes.spreadable.bind fun element element_value => .skip fun ends => ?_
    have more := forall_mem_snoc all element_value
    split
    · exact leaves_pure more
    · exact .skip fun _ => leaves_pure more

theorem objectMethod {start : Nat} {form : MemberForm} {isAsync isGenerator : Bool}
    (named : form ≠ .shorthand) :
    Leaves (objectMethod grammar start form isAsync isGenerator) IsValue := by
  refine shapes.propertyKey.bind fun key key_value => shapes.method.bind fun function holds => ?_
  refine leaves_node fun _ => .of_row rfl ?_ (by simp [key_value, holds])
  cases form <;> first
    | exact absurd rfl named
    | rfl

theorem plainMember : Leaves (plainMember grammar) IsValue := by
  refine .skip fun token => .skip fun second => ?_
  dsimp only
  split
  · refine .skip fun text => .skip fun isDefault => ?_
    have value : (Node.mk (.reference text) token.span []).IsValue := .leaf rfl
    split
    · exact shapes.assignment.bind fun standard standard_value => leaves_node fun _ =>
        .shorthand rfl (by simp [value, standard_value])
    · exact leaves_node fun _ => .shorthand rfl (List.forall_mem_singleton.2 value)
  · refine shapes.propertyKey.bind fun key key_value => .skip fun isMethod => ?_
    split
    · exact shapes.method.bind fun function holds => leaves_node fun _ =>
        .of_row rfl rfl (by simp [key_value, holds])
    · exact .skip fun _ => shapes.assignment.bind fun value holds => leaves_node fun _ =>
        .of_row rfl rfl (by simp [key_value, holds])

theorem objectMember : Leaves (objectMember grammar) IsValue := by
  refine .skip fun _ => .skip fun spreads => ?_
  split
  · exact shapes.spreadable
  refine .skip fun isGenerator => ?_
  split
  · exact shapes.objectMethod nofun
  refine .skip fun isAsync => ?_
  split
  · exact .skip fun isGenerator => shapes.objectMethod nofun
  refine .skip fun isGetter => ?_
  split
  · exact shapes.objectMethod nofun
  refine .skip fun isSetter => ?_
  split
  · exact shapes.objectMethod nofun
  · exact shapes.plainMember

theorem objectLiteral : Leaves (objectLiteral grammar) IsValue :=
  .skip fun _ => .skip fun _ => (leaves_commaList shapes.objectMember).bracketed.bind
    fun _ all => leaves_node fun _ => .of_row rfl rfl all

theorem template {isTagged : Bool} : Leaves (template grammar isTagged) IsValue := by
  refine .skip fun _ => ?_
  refine (leaves_loop (fun round => ∀ item ∈ round.2, item.IsValue) (List.forall_mem_nil _)
    fun round all => ?_ :
      Leaves _ fun result : List String × List Node => ∀ item ∈ result.2, item.IsValue).bind
        fun result all => leaves_node fun _ => .of_row rfl rfl all
  obtain ⟨pieces, items⟩ := round
  refine .skip fun token => ?_
  dsimp only
  split
  · refine .forbid (.skip fun _ => ?_)
    split
    · exact leaves_pure all
    · refine shapes.expression.bracketed.bind fun value value_holds =>
        .skip fun brace => .require ?_
      split
      · exact leaves_throw
      · exact .skip fun _ => leaves_pure (forall_mem_snoc all value_holds)
  · exact leaves_unexpected

theorem importArguments :
    Leaves (importArguments grammar) fun items => ∀ item ∈ items, item.IsValue := by
  refine .skip fun _ => .within (shapes.assignment.bind fun specifier specifier_value => ?_)
  refine .skip fun goesOn => .skip fun closes => ?_
  have rest (options : List Node) (all : ∀ option ∈ options, option.IsValue) :
      Leaves (do let _ ← takeSign ","; expectSign ")"; pure (specifier :: options))
        fun items => ∀ item ∈ items, item.IsValue :=
    .skip fun _ => .skip fun _ => leaves_pure (List.forall_mem_cons.2 ⟨specifier_value, all⟩)
  dsimp only
  split
  · exact .given (rest [] (List.forall_mem_nil _))
  · exact shapes.assignment.bind fun options options_value =>
      .given (rest [options] (List.forall_mem_singleton.2 options_value))

theorem importExpression : Leaves (importExpression grammar) IsValue := by
  have call {start : Nat} {phase : String} :
      Leaves (do let items ← Reader.importArguments grammar; node start (.importCall phase) items)
        IsValue :=
    shapes.importArguments.bind fun _ all => leaves_node fun _ => .of_row rfl rfl all
  refine .skip fun _ => .skip fun _ => .skip fun hasPhase => ?_
  split
  · refine .skip fun property => ?_
    split
    · exact .skip fun _ => leaves_node fun _ => .leaf rfl
    split
    · exact call
    · exact leaves_unexpected
  · exact call

/-- A function that is no declaration is a value. -/
theorem functionValue {start : Nat} {isAsync nameless : Bool} :
    Leaves (Reader.functionFrom grammar start .expression isAsync nameless) IsValue :=
  shapes.functionFrom.mono fun function holds => by
    obtain ⟨shaped, isGenerator, kind_eq⟩ := holds
    exact ⟨shaped, by rw [kind_eq]; rfl⟩

/-- So is such a class. -/
theorem classValue {start : Nat} {marks : List Node} (all : ∀ mark ∈ marks, mark.IsValue) :
    Leaves (Reader.classFrom grammar start marks false) IsValue :=
  (shapes.classFrom all).mono fun class_ holds => by
    obtain ⟨shaped, hasParent, kind_eq⟩ := holds
    exact ⟨shaped, by rw [kind_eq]; rfl⟩

theorem asyncOperand : Leaves (asyncOperand grammar) IsValue := by
  refine .skip fun _ => .skip fun second => ?_
  split
  · exact .skip fun _ => shapes.functionValue
  · exact leaves_reference

theorem wordOperand {text : String} : Leaves (wordOperand grammar text) IsValue := by
  have keyword {start : Nat} : Leaves (do advance; node start (.keyword text) []) IsValue :=
    .skip fun _ => leaves_node fun _ => .leaf rfl
  refine .skip fun _ => ?_
  split
  · exact shapes.functionValue
  · exact shapes.classValue (List.forall_mem_nil _)
  · exact shapes.asyncOperand
  · exact keyword
  · exact keyword
  · exact keyword
  · exact keyword
  · exact .skip fun _ => .skip fun _ => .skip fun _ => .skip fun _ =>
      .require (leaves_node fun _ => .leaf rfl)
  · exact leaves_reference

theorem operand : Leaves (operand grammar) IsValue := by
  refine .skip fun token => ?_
  dsimp only
  split
  · split
    · exact leaves_reference
    · exact shapes.wordOperand
  · exact .skip fun _ => leaves_node fun _ => .leaf rfl
  · exact .skip fun _ => leaves_node fun _ => .leaf rfl
  · exact shapes.template
  · exact .skip fun _ => shapes.expression.bracketed.bind fun inner inner_value => .skip fun _ =>
      leaves_node fun _ => .of_row rfl rfl (List.forall_mem_singleton.2 inner_value)
  · exact shapes.arrayLiteral
  · exact shapes.objectLiteral
  · exact leaves_regex
  · exact leaves_regex
  · exact shapes.decorators.bind fun marks all => shapes.classValue all
  · exact leaves_unexpected

/-! ## Members and calls -/

section Links

variable {start : Nat} {object : Node} (object_value : object.IsValue)

include object_value

theorem indexRest {isOptional : Bool} :
    Leaves (indexRest grammar start object isOptional) IsValue :=
  .skip fun _ => shapes.expression.bracketed.bind fun _ key_value => .skip fun _ =>
    leaves_node fun _ => .of_row rfl rfl (by simp [object_value, key_value])

theorem callRest {isOptional : Bool} : Leaves (callRest grammar start object isOptional) IsValue :=
  .skip fun _ => shapes.argumentsRest.bind fun _ all => leaves_node fun _ => .of_row rfl rfl
    (List.forall_mem_cons.2 ⟨object_value, all⟩)

theorem optionalLink : Leaves (optionalLink grammar start object) IsValue := by
  refine .skip fun isCall => ?_
  split
  · exact shapes.callRest object_value
  refine .skip fun isIndex => ?_
  split
  · exact shapes.indexRest object_value
  · exact leaves_memberName object_value

/-- A link is the object of the next one. -/
theorem links {allowsCalls : Bool} : Leaves (links grammar allowsCalls start object) IsValue := by
  refine leaves_loop (fun round => round.1.IsValue) object_value fun round round_value => ?_
  obtain ⟨object, hasOptional⟩ := round
  have next {reader : Reader Node} {isLink : Bool} (leaves : Leaves reader IsValue) :
      Leaves (do return .inl (← reader, isLink) : Reader (Node × Bool ⊕ Node))
        (Sum.elim (fun round => round.1.IsValue) IsValue) :=
    leaves.bind fun _ link_value => leaves_pure link_value
  refine .skip fun token => .skip fun context => ?_
  dsimp only
  split
  · exact .skip fun _ => next (leaves_memberName round_value)
  split
  · exact .require (.skip fun _ => next (shapes.optionalLink round_value))
  split
  · exact next (shapes.indexRest round_value)
  split
  · exact next (shapes.callRest round_value)
  split
  · exact .forbid (shapes.template.bind fun quasi quasi_value => next (leaves_node fun _ =>
      .of_row rfl rfl (by simp [round_value, quasi_value])))
  split
  · refine (leaves_node fun _ => ?_ : Leaves _ IsValue).bind fun _ chain_value =>
      leaves_pure chain_value
    exact .of_row rfl rfl (List.forall_mem_singleton.2 round_value)
  · exact leaves_pure round_value

end Links

theorem construction : Leaves (construction grammar) IsValue := by
  refine .skip fun _ => .skip fun _ => .skip fun isTarget => ?_
  split
  · exact .skip fun _ => leaves_node fun _ => .leaf rfl
  refine shapes.callee.bind fun callee callee_value => .skip fun hasArguments => ?_
  split
  · exact shapes.argumentsRest.bind fun _ all => leaves_node fun _ => .of_row rfl rfl
      (List.forall_mem_cons.2 ⟨callee_value, all⟩)
  · exact leaves_node fun _ => .of_row rfl rfl (List.forall_mem_singleton.2 callee_value)

theorem calleeProduction : Leaves (calleeProduction grammar) IsValue := by
  refine .skip fun _ => .skip fun second => .skip fun isImport => .forbid (.skip fun isNew => ?_)
  split
  · exact shapes.construction.bind fun _ base_value => shapes.links base_value
  refine .skip fun isImport => ?_
  split
  · exact shapes.importExpression.bind fun _ base_value => shapes.links base_value
  · exact shapes.operand.bind fun _ base_value => shapes.links base_value

theorem leftHandProduction : Leaves (leftHandProduction grammar) IsValue := by
  refine .skip fun _ => .skip fun isNew => ?_
  split
  · exact shapes.construction.bind fun _ base_value => shapes.links base_value
  refine .skip fun isImport => ?_
  split
  · exact shapes.importExpression.bind fun _ base_value => shapes.links base_value
  · exact shapes.operand.bind fun _ base_value => shapes.links base_value

/-! ## Operators -/

theorem postfixOperand : Leaves (postfixOperand grammar) IsValue := by
  refine .skip fun _ => shapes.leftHand.bind fun inner inner_value => .skip fun token => ?_
  split
  · exact (leaves_simpleTarget inner_value).bind fun goal goal_value => .skip fun _ =>
      leaves_node fun _ => .of_row rfl rfl (List.forall_mem_singleton.2 goal_value)
  · exact leaves_pure inner_value

theorem awaitOperand : Leaves (awaitOperand grammar) IsValue := by
  have awaited {start : Nat} :
      Leaves (do let inner ← grammar.unary; node start .await [inner]) IsValue :=
    shapes.unary.bind fun _ inner_value => leaves_node fun _ =>
      .of_row rfl rfl (List.forall_mem_singleton.2 inner_value)
  refine .skip fun _ => .skip fun context => .skip fun second => ?_
  dsimp only
  split
  · refine .skip fun _ => ?_
    split
    · exact awaited
    · exact .skip fun _ => awaited
  · exact shapes.postfixOperand

theorem unaryProduction : Leaves (unaryProduction grammar) IsValue := by
  have prefixed {start : Nat} {operator : String} :
      Leaves (do advance; let inner ← grammar.unary; node start (.unary operator) [inner])
        IsValue :=
    .skip fun _ => shapes.unary.bind fun _ inner_value => leaves_node fun _ =>
      .of_row rfl rfl (List.forall_mem_singleton.2 inner_value)
  have stepped {start : Nat} {operator : String} :
      Leaves (do
        advance
        let goal ← simpleTarget (← grammar.unary)
        node start (.update operator true) [goal]) IsValue :=
    .skip fun _ => shapes.unary.bind fun _ inner_value => (leaves_simpleTarget inner_value).bind
      fun _ goal_value => leaves_node fun _ =>
        .of_row rfl rfl (List.forall_mem_singleton.2 goal_value)
  refine .skip fun token => ?_
  dsimp only
  split
  · exact prefixed
  · exact prefixed
  · exact prefixed
  · exact prefixed
  · exact stepped
  · exact stepped
  · exact prefixed
  · exact prefixed
  · exact prefixed
  · exact shapes.awaitOperand
  · exact shapes.postfixOperand

theorem rowOperand : Leaves (rowOperand grammar) IsValue := by
  refine .skip fun token => ?_
  split
  · exact .skip fun _ => .skip fun _ => .skip fun _ => .require (leaves_node fun _ => .leaf rfl)
  · exact shapes.unary

theorem row : Leaves (row grammar) IsValue := by
  refine shapes.rowOperand.bind fun first first_value => ?_
  refine (leaves_loop (fun items => ∀ item ∈ items, item.2.IsValue) (List.forall_mem_nil _)
    fun items all => ?_ :
      Leaves _ fun items : List (BinaryOperator × Node) => ∀ item ∈ items, item.2.IsValue).bind
        fun items all => ?_
  · refine .skip fun context => .skip fun token => ?_
    split
    · refine .skip fun _ => ?_
      split
      · exact shapes.rowOperand.bind fun _ operand_value =>
          leaves_pure (forall_mem_snoc all operand_value)
      · exact shapes.unary.bind fun _ operand_value =>
          leaves_pure (forall_mem_snoc all operand_value)
    · exact leaves_pure all
  · split
    · rename_i tree assembled
      refine leaves_pure (BinaryOperator.holds_assemble (fun _ _ _ left_value right_value => ?_)
        assembled (List.forall_mem_nil _) first_value all)
      exact .of_row rfl rfl (by simp [left_value, right_value])
    · exact leaves_failAt

theorem conditional : Leaves (conditional grammar) IsValue := by
  refine .skip fun _ => shapes.row.bind fun test test_value => .skip fun isChoice => ?_
  split
  · exact shapes.assignment.bracketed.bind fun _ first_value => .skip fun _ =>
      shapes.assignment.bind fun _ second_value => leaves_node fun _ =>
        .of_row rfl rfl (by simp [test_value, first_value, second_value])
  · exact leaves_pure test_value

/-! ## Arrow functions and assignments -/

theorem asyncHead? : Leaves (asyncHead? grammar) fun head =>
    ∀ inputs ∈ head, inputs.IsShaped ∧ inputs.kind = .parameters := by
  refine .skip fun second => ?_
  dsimp only
  split
  · exact leaves_pure nofun
  · rename_i inputs found
    have leaves : Leaves inputs fun inputs => inputs.IsShaped ∧ inputs.kind = .parameters := by
      split at found
      · contradiction
      split at found
      · contradiction
      split at found
      · exact Option.some.inj found ▸ leaves_singleParameter
      split at found
      · exact Option.some.inj found ▸ shapes.parameters
      · contradiction
    exact leaves_attempt (.skip fun _ => (leaves_arrowHead leaves).within)

theorem arrowHead? : Leaves (arrowHead? grammar) fun head =>
    ∀ inputs ∈ head, inputs.1.IsShaped ∧ inputs.1.kind = .parameters := by
  have head {inputs : Reader Node}
      (leaves : Leaves inputs fun inputs => inputs.IsShaped ∧ inputs.kind = .parameters) :
      Leaves (do return (← attempt (arrowHead inputs)).map (·, false)) fun head =>
        ∀ inputs ∈ head, inputs.1.IsShaped ∧ inputs.1.kind = .parameters :=
    (leaves_attempt (leaves_arrowHead leaves)).bind fun head all => leaves_pure (by
      simpa using all)
  have plain {token : Token} :
      Leaves (do
        let second ← peekSecond
        if isName token && second.any fun second => isSign second "=>" && !second.opensLine then
          return (← attempt (arrowHead singleParameter)).map (·, false)
        else if isSign token "(" && second.any beginsParameter then
          return (← attempt (arrowHead (Reader.parameters grammar))).map (·, false)
        else
          return none) fun head =>
        ∀ inputs ∈ head, inputs.1.IsShaped ∧ inputs.1.kind = .parameters := by
    refine .skip fun second => ?_
    split
    · exact head leaves_singleParameter
    split
    · exact head shapes.parameters
    · exact leaves_pure nofun
  refine .skip fun token => ?_
  dsimp only
  split
  · refine shapes.asyncHead?.bind fun found all => ?_
    cases found with
    | none => exact plain
    | some inputs => exact leaves_pure (by simpa using all)
  · exact plain

theorem arrowBody {start : Nat} {inputs : Node} {isAsync : Bool} (inputs_shaped : inputs.IsShaped)
    (inputs_kind : inputs.kind = .parameters) :
    Leaves (arrowBody grammar start inputs isAsync) IsValue := by
  have arrow {isExpression : Bool} {body : Node} (body_shaped : body.IsShaped) (span : Span) :
      (Node.mk (.arrow isAsync isExpression) span [inputs, body]).IsValue :=
    ⟨IsShaped.function rfl rfl (List.forall_mem_nil _) inputs_shaped
      (by rw [inputs_kind]; rfl) body_shaped, rfl⟩
  refine .skip fun context => .skip fun isBlock => ?_
  split
  · exact shapes.functionBody.within.bind fun _ body_shaped => leaves_node fun span =>
      arrow body_shaped span
  · refine .skip fun _ => shapes.assignment.within.bind fun value value_holds => ?_
    refine (leaves_node fun _ => ?_ : Leaves _ IsPlain).bind fun statement statement_plain => ?_
    · exact .of_row rfl (.inl rfl) rfl (List.forall_mem_singleton.2 value_holds.plain)
    refine (leaves_node fun _ => ?_ : Leaves _ IsShaped).bind fun _ body_shaped =>
      leaves_node fun span => arrow body_shaped span
    exact .of_children (List.forall_mem_singleton.2 statement_plain) nofun nofun nofun

theorem yieldExpression : Leaves (yieldExpression grammar) IsValue := by
  have yielded {start : Nat} {isDelegate : Bool} :
      Leaves (do let value ← grammar.assignment; node start (.yield isDelegate) [value]) IsValue :=
    shapes.assignment.bind fun _ value_holds => leaves_node fun _ =>
      .of_row rfl rfl (List.forall_mem_singleton.2 value_holds)
  refine .skip fun _ => .skip fun _ => .skip fun token => ?_
  split
  · exact .skip fun _ => yielded
  split
  · exact leaves_node fun _ => .leaf rfl
  · exact yielded

theorem assignmentProduction : Leaves (assignmentProduction grammar) IsValue := by
  refine .skip fun _ => shapes.arrowHead?.bind fun head all => ?_
  cases head with
  | some head =>
      obtain ⟨inputs_shaped, inputs_kind⟩ := all head rfl
      exact shapes.arrowBody inputs_shaped inputs_kind
  | none =>
      refine .skip fun isYield => .skip fun context => ?_
      split
      · exact shapes.yieldExpression
      refine shapes.conditional.bind fun left left_value => .skip fun token => ?_
      split
      · exact leaves_pure left_value
      · have assigned {start : Nat} {operator : String} {goal : Node} (goal_value : goal.IsValue) :
            Leaves (do
              advance
              let value ← grammar.assignment
              node start (.assignment operator) [goal, value]) IsValue :=
          .skip fun _ => shapes.assignment.bind fun _ value_holds => leaves_node fun _ =>
            .of_row rfl rfl (by simp [goal_value, value_holds])
        split
        · exact (leaves_target left_value).bind fun _ => assigned
        · exact (leaves_simpleTarget left_value).bind fun _ => assigned

end Shapes
end Reader
end Shakedown
