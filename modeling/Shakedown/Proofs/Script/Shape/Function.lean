import Shakedown.Proofs.Script.Reader.Function
import Shakedown.Proofs.Script.Shape
import Shakedown.Script.Reader.Class

/-!
# Functions and classes of the right shape

What a reader leaves does not depend on where it reads. Patterns leave values, and functions and
classes leave nodes made of their parts, in the order that their parts are read in.
-/

namespace Shakedown
namespace Reader

open Node

/-! ## Whatever the state -/

/-- A reader that leaves only what is asked for, from wherever it reads. -/
def Leaves {α : Type} (reader : Reader α) (post : α → Prop) : Prop :=
  ∀ context state, Meets reader context state fun result _ => post result

section Leaves

variable {α β σ : Type} {reader : Reader α} {next : α → Reader β}
  {post : α → Prop} {last : β → Prop}

theorem Leaves.bind (leaves : Leaves reader post)
    (rest : ∀ result, post result → Leaves (next result) last) :
    Leaves (reader >>= next) last :=
  fun context state => meets_bind ((leaves context state).mono fun result after holds =>
    rest result holds context after)

theorem Leaves.mono {weaker : α → Prop} (leaves : Leaves reader post)
    (implies : ∀ result, post result → weaker result) : Leaves reader weaker :=
  fun context state => (leaves context state).mono fun result _ => implies result

/-- What a step leaves may not matter. -/
theorem Leaves.skip (rest : ∀ result, Leaves (next result) last) : Leaves (reader >>= next) last :=
  fun context _ => meets_bind fun result after _ => rest result context after

theorem leaves_pure {value : α} (holds : post value) : Leaves (pure value) post :=
  fun _ _ => meets_pure holds

theorem leaves_unexpected : Leaves (unexpected : Reader α) post :=
  fun _ _ => meets_unexpected

theorem leaves_failAt {offset : Nat} : Leaves (failAt offset : Reader α) post :=
  fun _ _ => meets_failAt

theorem leaves_throw {fault : SyntaxFault} : Leaves (throw fault : Reader α) post :=
  fun _ _ => meets_throw

theorem leaves_node {offset : Nat} {kind : NodeKind} {nodes : List Node} {post : Node → Prop}
    (holds : ∀ span, post (.mk kind span nodes)) : Leaves (node offset kind nodes) post :=
  fun _ _ => meets_node (holds _)

theorem Leaves.within {change : ReadContext → ReadContext} (leaves : Leaves reader post) :
    Leaves (within change reader) post :=
  fun context state => leaves (change context) state

theorem Leaves.bracketed (leaves : Leaves reader post) : Leaves (bracketed reader) post :=
  leaves.within

theorem leaves_attempt (leaves : Leaves reader post) :
    Leaves (attempt reader) fun result => ∀ value ∈ result, post value :=
  fun context state => meets_attempt ((leaves context state).mono fun value _ holds => by
    simpa using holds) nofun

theorem Leaves.require {condition : Prop} [Decidable condition] {yes : Reader β} {no : α → Reader β}
    (leaves : Leaves yes last) : Leaves (if condition then yes else unexpected >>= no) last :=
  fun context state => meets_require fun _ => leaves context state

theorem Leaves.forbid {condition : Prop} [Decidable condition] {yes : α → Reader β} {no : Reader β}
    (leaves : Leaves no last) : Leaves (if condition then unexpected >>= yes else no) last :=
  fun context state => meets_forbid fun _ => leaves context state

theorem leaves_loop {step : σ → Reader (σ ⊕ α)} (invariant : σ → Prop) {start : σ}
    (begins : invariant start)
    (keeps : ∀ round, invariant round → Leaves (step round) (Sum.elim invariant post)) :
    Leaves (loop step start) post :=
  fun context _ => meets_loop (fun round _ => invariant round) begins fun round state holds =>
    (keeps round holds context state).mono fun result _ kept => by cases result <;> exact kept

/-- What is given is not read. -/
theorem Leaves.given {value : α} (leaves : Leaves (next value) last) :
    Leaves (pure value >>= next) last :=
  leaves

/-- One more of the same sort. -/
theorem forall_mem_snoc {items : List α} {item : α} (all : ∀ item ∈ items, post item)
    (holds : post item) : ∀ other ∈ items ++ [item], post other :=
  List.forall_mem_append.2 ⟨all, List.forall_mem_singleton.2 holds⟩

theorem leaves_commaList {close : String} {item : Reader Node} {post : Node → Prop}
    (leaves : Leaves item post) :
    Leaves (commaList close item) fun items => ∀ item ∈ items, post item := by
  refine leaves_loop (fun items => ∀ item ∈ items, post item) nofun fun items all => ?_
  refine .skip fun closes => ?_
  split
  · exact leaves_pure all
  · refine leaves.bind fun item holds => .skip fun ends => ?_
    have more := forall_mem_snoc all holds
    dsimp only
    split
    · exact leaves_pure more
    · exact .skip fun _ => leaves_pure more

/-- Which of two steps is taken may not matter either. -/
theorem Leaves.either {condition : Prop} [Decidable condition] {first second : Reader α}
    (rest : ∀ result, Leaves (next result) last) :
    Leaves (if condition then first >>= next else second >>= next) last := by
  split
  · exact .skip rest
  · exact .skip rest

/-- A tree that is read only under a condition. -/
theorem Leaves.optional {condition : Prop} [Decidable condition] {reader : Reader Node}
    {next : List Node → Reader β} {post : Node → Prop} (leaves : Leaves reader post)
    (rest : ∀ part, (∀ node ∈ part, post node) → Leaves (next part) last) :
    Leaves (if condition then (do let node ← reader; let part ← pure [node]; next part)
      else (do let part ← pure []; next part)) last := by
  split
  · exact leaves.bind fun node holds => .given (rest [node] (List.forall_mem_singleton.2 holds))
  · exact .given (rest [] (List.forall_mem_nil _))

end Leaves

/-! ## Words and names -/

theorem leaves_reference : Leaves reference IsValue :=
  .skip fun _ => .skip fun _ => leaves_node fun _ => .leaf rfl

theorem leaves_binding : Leaves binding IsValue :=
  .skip fun _ => .skip fun _ => leaves_node fun _ => .leaf rfl

theorem leaves_literalKey : Leaves literalKey IsValue := by
  refine .skip fun token => ?_
  split
  · exact .skip fun _ => leaves_node fun _ => .leaf rfl
  · exact .skip fun _ => leaves_node fun _ => .leaf rfl
  · exact .skip fun _ => leaves_node fun _ => .leaf rfl
  · exact leaves_unexpected

theorem leaves_restBinding : Leaves restBinding IsValue :=
  .skip fun _ => .skip fun _ => leaves_binding.bind fun _ target_value =>
    leaves_node fun _ => .of_row rfl rfl (List.forall_mem_singleton.2 target_value)

/-- A parameter with its decorators, if it has any. -/
theorem leaves_marked {start : Nat} {marks : List Node} {pattern : Node}
    (all : ∀ mark ∈ marks, mark.IsValue) (pattern_value : pattern.IsValue) :
    Leaves (if marks.isEmpty then pure pattern else node start .decorated (marks ++ [pattern]))
      IsValue := by
  split
  · exact leaves_pure pattern_value
  · exact leaves_node fun _ => .of_row rfl rfl (forall_mem_snoc all pattern_value)

/-- The productions of a grammar leave trees of the right shape. -/
structure Shapes (grammar : Grammar) : Prop where
  assignment : Leaves grammar.assignment IsValue
  unary : Leaves grammar.unary IsValue
  leftHand : Leaves grammar.leftHand IsValue
  callee : Leaves grammar.callee IsValue
  pattern : Leaves grammar.pattern IsValue
  statement : ∀ isSingle, Leaves (grammar.statement isSingle) IsPlain

namespace Shapes

variable {grammar : Grammar} (shapes : Shapes grammar)

include shapes

theorem propertyKey : Leaves (propertyKey grammar) fun key => key.1.IsValue := by
  refine .skip fun opens => ?_
  split
  · exact shapes.assignment.bracketed.bind fun key key_value => .skip fun _ => leaves_pure key_value
  · exact leaves_literalKey.bind fun key key_value => leaves_pure key_value

/-! ## Patterns -/

theorem patternElement : Leaves (patternElement grammar) IsValue := by
  refine .skip fun _ => shapes.pattern.bind fun target target_value => .skip fun isDefault => ?_
  split
  · refine shapes.assignment.bracketed.bind fun standard standard_value => leaves_node fun _ => ?_
    exact .of_row rfl rfl (by simp [target_value, standard_value])
  · exact leaves_pure target_value

theorem restPattern : Leaves (restPattern grammar) IsValue :=
  .skip fun _ => .skip fun _ => shapes.pattern.bind fun _ target_value =>
    leaves_node fun _ => .of_row rfl rfl (List.forall_mem_singleton.2 target_value)

theorem arrayPatternElements :
    Leaves (arrayPatternElements grammar) fun items => ∀ item ∈ items, item.IsValue := by
  refine leaves_loop (fun items => ∀ item ∈ items, item.IsValue) nofun fun items all => ?_
  refine .skip fun closes => ?_
  split
  · exact leaves_pure all
  refine .skip fun token => ?_
  dsimp only
  split
  · exact .skip fun _ => leaves_pure (forall_mem_snoc all (.leaf rfl))
  split
  · exact shapes.restPattern.bind fun rest rest_value => .skip fun _ =>
      leaves_pure (forall_mem_snoc all rest_value)
  · refine shapes.patternElement.bind fun element element_value => .skip fun ends => ?_
    have more := forall_mem_snoc all element_value
    split
    · exact leaves_pure more
    · exact .skip fun _ => leaves_pure more

theorem patternMember : Leaves (patternMember grammar) IsValue := by
  refine .skip fun token => .skip fun second => ?_
  dsimp only
  split
  · refine .skip fun text => .skip fun isDefault => ?_
    split
    · refine shapes.assignment.bracketed.bind fun standard standard_value => ?_
      refine (leaves_node fun _ => ?_ : Leaves _ IsValue).bind fun value value_holds => ?_
      · exact .of_row rfl rfl (List.forall_mem_cons.2 ⟨.leaf rfl, by simpa using standard_value⟩)
      · exact leaves_node fun _ => .shorthand rfl (List.forall_mem_singleton.2 value_holds)
    · exact leaves_node fun _ => .shorthand rfl (List.forall_mem_singleton.2 (.leaf rfl))
  · refine shapes.propertyKey.bind fun key key_value => .skip fun _ => ?_
    refine shapes.patternElement.bind fun value value_holds => leaves_node fun _ => ?_
    exact .of_row rfl rfl (by simp [key_value, value_holds])

theorem objectPatternMembers :
    Leaves (objectPatternMembers grammar) fun items => ∀ item ∈ items, item.IsValue := by
  refine leaves_loop (fun items => ∀ item ∈ items, item.IsValue) nofun fun items all => ?_
  refine .skip fun closes => ?_
  split
  · exact leaves_pure all
  refine .skip fun isRest => ?_
  split
  · exact leaves_restBinding.bind fun rest rest_value => .skip fun _ =>
      leaves_pure (forall_mem_snoc all rest_value)
  · refine shapes.patternMember.bind fun member member_value => .skip fun ends => ?_
    have more := forall_mem_snoc all member_value
    dsimp only
    split
    · exact leaves_pure more
    · exact .skip fun _ => leaves_pure more

theorem patternProduction : Leaves (patternProduction grammar) IsValue := by
  refine .skip fun _ => .skip fun isArray => ?_
  split
  · exact shapes.arrayPatternElements.bind fun _ all => leaves_node fun _ => .of_row rfl rfl all
  refine .skip fun isObject => ?_
  split
  · exact shapes.objectPatternMembers.bind fun _ all => leaves_node fun _ => .of_row rfl rfl all
  · exact leaves_binding

/-! ## Decorators and parameters -/

theorem decorators : Leaves (decorators grammar) fun items => ∀ item ∈ items, item.IsValue := by
  refine leaves_loop (fun items => ∀ item ∈ items, item.IsValue) nofun fun items all => ?_
  refine .skip fun _ => .skip fun marks => ?_
  split
  · refine shapes.leftHand.within.bind fun expression expression_value => ?_
    refine (leaves_node fun _ => ?_ : Leaves _ IsValue).bind fun node node_value =>
      leaves_pure (forall_mem_snoc all node_value)
    exact .of_row rfl rfl (List.forall_mem_singleton.2 expression_value)
  · exact leaves_pure all

theorem parameter : Leaves (parameter grammar) IsValue := by
  refine .skip fun _ => shapes.decorators.bind fun marks all => .skip fun isRest => ?_
  dsimp only
  split
  · exact shapes.restPattern.bind fun _ pattern_value => .skip fun _ =>
      .require (leaves_marked all pattern_value)
  · exact shapes.patternElement.bind fun _ pattern_value => leaves_marked all pattern_value

/-- Parameters are a part of a function and nothing else. -/
theorem parameters :
    Leaves (parameters grammar) fun inputs => inputs.IsShaped ∧ inputs.kind = .parameters := by
  refine .skip fun _ => .skip fun _ => ?_
  refine (leaves_commaList shapes.parameter).bracketed.bind fun items all => leaves_node fun _ => ?_
  exact ⟨.of_children (fun item listed => (all item listed).plain) nofun nofun nofun, rfl⟩

/-! ## Bodies -/

theorem statementList (closes : Token → Bool) :
    Leaves (statementList grammar closes) fun items => ∀ item ∈ items, item.IsPlain := by
  refine leaves_loop (fun items => ∀ item ∈ items, item.IsPlain) nofun fun items all => ?_
  refine .skip fun token => ?_
  split
  · exact leaves_pure all
  · exact (shapes.statement false).bind fun _ statement_plain =>
      leaves_pure (forall_mem_snoc all statement_plain)

/-- A body has the statements behind its directives. -/
theorem functionBody : Leaves (functionBody grammar) IsShaped := by
  refine .skip fun _ => .skip fun _ => (shapes.statementList closesBlock).bind fun items all => ?_
  refine .skip fun _ => leaves_node fun _ => .of_children (fun item listed => ?_) nofun nofun nofun
  exact all item ((suffix_splitDirectives items).mem listed)

theorem functionRest {start : Nat} {form : FunctionForm} {isAsync isGenerator : Bool}
    {named : List Node} (all : ∀ name ∈ named, name.IsValue) :
    Leaves (functionRest grammar start form isAsync isGenerator named) fun function =>
      function.IsShaped ∧ function.kind = .function form isAsync isGenerator := by
  refine .within (shapes.parameters.bind fun inputs inputs_hold => ?_)
  refine shapes.functionBody.bind fun body body_shaped => leaves_node fun _ => ⟨?_, rfl⟩
  obtain ⟨inputs_shaped, inputs_kind⟩ := inputs_hold
  have named_below : ∀ name ∈ named, name.IsShaped ∧ name.kind.isBody = false := fun name listed =>
    ⟨(all name listed).1, isBody_of_isPart (all name listed).plain.2⟩
  exact .function rfl rfl named_below inputs_shaped (by rw [inputs_kind]; rfl) body_shaped

theorem method {form : MemberForm} {isAsync isGenerator : Bool} :
    Leaves (method grammar form isAsync isGenerator) IsValue := by
  refine .skip fun _ => (shapes.functionRest (List.forall_mem_nil _)).bind fun function holds => ?_
  have function_value : function.IsValue := ⟨holds.1, by rw [holds.2]; rfl⟩
  dsimp only
  split
  · split
    · exact leaves_pure function_value
    · exact .skip fun _ => leaves_pure function_value
  · exact leaves_pure function_value

theorem functionFrom {start : Nat} {form : FunctionForm} {isAsync nameless : Bool} :
    Leaves (functionFrom grammar start form isAsync nameless) fun function =>
      function.IsShaped ∧ ∃ isGenerator, function.kind = .function form isAsync isGenerator := by
  refine .skip fun _ => .skip fun isGenerator => .skip fun token => .forbid ?_
  have rest {named : List Node} (all : ∀ name ∈ named, name.IsValue) :
      Leaves (Reader.functionRest grammar start form isAsync isGenerator named) fun function =>
        function.IsShaped ∧ ∃ isGenerator, function.kind = .function form isAsync isGenerator :=
    (shapes.functionRest all).mono fun function holds => ⟨holds.1, isGenerator, holds.2⟩
  split
  · split
    · exact leaves_binding.within.bind fun name name_value =>
        .given (rest (List.forall_mem_singleton.2 name_value))
    · exact leaves_binding.bind fun name name_value =>
        .given (rest (List.forall_mem_singleton.2 name_value))
  · exact .given (rest (List.forall_mem_nil _))

/-! ## Classes -/

theorem memberKey : Leaves (memberKey grammar) fun key => key.1.IsValue := by
  refine .skip fun token => ?_
  split
  · refine .skip fun _ => (leaves_node fun _ => ?_ : Leaves _ IsValue).bind fun key key_value =>
      leaves_pure key_value
    exact .leaf rfl
  · exact shapes.propertyKey

theorem classField {start : Nat} {marks : List Node} {key : Node}
    {isStatic isComputed isAccessor : Bool}
    (all : ∀ mark ∈ marks, mark.IsValue) (key_value : key.IsValue) :
    Leaves (classField grammar start marks key isStatic isComputed isAccessor) IsValue := by
  refine .skip fun isGiven => shapes.assignment.within.optional fun value value_holds => ?_
  refine .skip fun _ => leaves_node fun _ => .of_row rfl rfl ?_
  exact List.forall_mem_append.2 ⟨all, List.forall_mem_cons.2 ⟨key_value, value_holds⟩⟩

theorem classMemberRest {start : Nat} {marks : List Node} {isStatic : Bool}
    (all : ∀ mark ∈ marks, mark.IsValue) :
    Leaves (classMemberRest grammar start marks isStatic) IsValue := by
  refine .skip fun isAccessor => .either fun isAsync => .either fun isGenerator => ?_
  refine .either fun isGetter => .either fun isSetter => ?_
  refine shapes.memberKey.bind fun key key_value => .skip fun _ => ?_
  split
  · refine shapes.method.bind fun function function_value => leaves_node fun _ => .of_row rfl rfl ?_
    exact List.forall_mem_append.2 ⟨all, by simpa using ⟨key_value, function_value⟩⟩
  · exact shapes.classField all key_value

theorem classMember : Leaves (classMember grammar) IsValue := by
  refine .skip fun _ => shapes.decorators.bind fun marks all =>
    .skip fun second => .skip fun _ => ?_
  split
  · refine .skip fun _ => .skip fun _ => ?_
    refine (shapes.statementList closesBlock).within.bind fun items items_plain => .skip fun _ => ?_
    exact leaves_node fun _ => ⟨(IsPlain.of_row rfl (.inr rfl) rfl items_plain).1, rfl⟩
  · exact .skip fun isStatic => shapes.classMemberRest all

theorem classBody : Leaves (classBody grammar) IsValue := by
  refine .skip fun _ => .skip fun _ => ?_
  refine (leaves_loop (fun items => ∀ item ∈ items, item.IsValue) (List.forall_mem_nil _)
    fun items all => ?_ : Leaves _ fun items : List Node => ∀ item ∈ items, item.IsValue).bind
      fun items all => leaves_node fun _ => .of_row rfl rfl all
  refine .skip fun closes => ?_
  split
  · exact leaves_pure all
  refine .skip fun isEmpty => ?_
  split
  · exact leaves_pure all
  · exact shapes.classMember.bind fun member member_value =>
      leaves_pure (forall_mem_snoc all member_value)

theorem classFrom {start : Nat} {marks : List Node} {isDeclaration : Bool}
    (all : ∀ mark ∈ marks, mark.IsValue) :
    Leaves (classFrom grammar start marks isDeclaration) fun class_ =>
      class_.IsShaped ∧ ∃ hasParent, class_.kind = .classDefinition isDeclaration hasParent := by
  refine .skip fun _ => .skip fun token => leaves_binding.optional fun named named_values => ?_
  refine .skip fun extends_ => shapes.leftHand.optional fun parent parent_values => ?_
  refine shapes.classBody.bind fun body body_value => leaves_node fun _ => ?_
  have below : ∀ child ∈ marks ++ named ++ parent ++ [body], child.IsValue :=
    forall_mem_snoc (List.forall_mem_append.2
      ⟨List.forall_mem_append.2 ⟨all, named_values⟩, parent_values⟩) body_value
  exact ⟨.of_children (fun child listed => (below child listed).plain)
    (fun _ _ child listed => (below child listed).2) nofun nofun, _, rfl⟩

end Shapes
end Reader
end Shakedown
