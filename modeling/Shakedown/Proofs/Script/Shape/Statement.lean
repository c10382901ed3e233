import Shakedown.Proofs.Script.Program
import Shakedown.Proofs.Script.Shape.Expression

/-!
# Programs of the right shape

Imports, exports and statements are no values, and none of them is a part of a function. So every
program that is read is of the right shape, however deep its productions nest.
-/

namespace Shakedown
namespace Reader

open Node

/-! ## Imports -/

theorem leaves_importAttribute : Leaves importAttribute IsPlain :=
  .skip fun _ => .skip fun _ => .skip fun _ => .skip fun _ => leaves_node fun _ =>
    .of_row rfl (.inl rfl) rfl (List.forall_mem_nil _)

theorem leaves_importAttributes :
    Leaves importAttributes fun marks => ∀ mark ∈ marks, mark.IsPlain := by
  refine .skip fun token => ?_
  split
  · exact .skip fun _ => .skip fun _ => leaves_commaList leaves_importAttribute
  · exact leaves_pure (List.forall_mem_nil _)

/-- What is imported has one name. -/
theorem leaves_imported {start : Nat} {kind : NodeKind} (no_part : kind.isPart = false)
    (no_value : kind.isValue = false) (row : kind.isRow) :
    Leaves (do node start kind [← binding]) IsPlain :=
  leaves_binding.bind fun _ name_value => leaves_node fun _ =>
    .of_row no_part (.inl no_value) row (List.forall_mem_singleton.2 name_value.plain)

theorem leaves_importSpecifier : Leaves importSpecifier IsPlain := by
  refine .skip fun token => .skip fun second => ?_
  extract_lets isRenamed isText
  split
  · exact .skip fun _ => .skip fun _ => leaves_imported rfl rfl rfl
  split
  · exact .skip fun _ => .skip fun _ => leaves_imported rfl rfl rfl
  · refine leaves_binding.bind fun name name_value => ?_
    split
    · exact leaves_node fun _ => .of_row rfl (.inl rfl) rfl
        (List.forall_mem_singleton.2 name_value.plain)
    · exact leaves_unexpected

theorem leaves_importNamespace : Leaves importNamespace IsPlain :=
  .skip fun _ => .skip fun _ => .skip fun _ => leaves_imported rfl rfl rfl

theorem leaves_importNames : Leaves importNames fun names => ∀ name ∈ names, name.IsPlain :=
  .skip fun _ => leaves_commaList leaves_importSpecifier

theorem leaves_importClause : Leaves importClause fun names => ∀ name ∈ names, name.IsPlain := by
  have everything {first : List Node} (first_plain : ∀ name ∈ first, name.IsPlain) :
      Leaves (do return first ++ [← importNamespace]) fun names => ∀ name ∈ names, name.IsPlain :=
    leaves_importNamespace.bind fun _ name_plain =>
      leaves_pure (forall_mem_snoc first_plain name_plain)
  refine .skip fun isAll => ?_
  split
  · exact everything (List.forall_mem_nil _)
  refine .skip fun isList => ?_
  split
  · exact leaves_importNames
  refine .skip fun _ => leaves_binding.bind fun name name_value => ?_
  refine (leaves_node fun _ => ?_ : Leaves _ IsPlain).bind fun first first_plain => ?_
  · exact .of_row rfl (.inl rfl) rfl (List.forall_mem_singleton.2 name_value.plain)
  refine .skip fun goesOn => ?_
  split
  · refine .skip fun isAll => ?_
    split
    · exact everything (List.forall_mem_singleton.2 first_plain)
    · exact leaves_importNames.bind fun _ all =>
        leaves_pure (List.forall_mem_cons.2 ⟨first_plain, all⟩)
  · exact leaves_pure (List.forall_mem_singleton.2 first_plain)

theorem leaves_importDeclaration : Leaves importDeclaration IsPlain := by
  refine .skip fun _ => .skip fun _ => .skip fun _ => .skip fun token => ?_
  split
  · exact .skip fun _ => leaves_importAttributes.bind fun _ all => .skip fun _ =>
      leaves_node fun _ =>
      .of_row rfl (.inl rfl) rfl all
  · refine .skip fun _ => leaves_importClause.bind fun clause clause_plain => .skip fun _ => ?_
    exact .skip fun _ => leaves_importAttributes.bind fun _ all => .skip fun _ =>
      leaves_node fun _ =>
      .of_row rfl (.inl rfl) rfl (List.forall_mem_append.2 ⟨clause_plain, all⟩)

/-! ## Exports -/

theorem leaves_exportSpecifier {isLocal : Bool} {entry : ExportEntry} :
    Leaves (exportSpecifier isLocal entry) IsPlain := by
  unfold exportSpecifier
  split
  · have named : (Node.mk (.exportSpecifier entry.name entry.exported) entry.span
        [.mk (.reference entry.name) entry.localSpan []]).IsPlain :=
      .of_row rfl (.inl rfl) rfl (List.forall_mem_singleton.2 (IsValue.leaf rfl).plain)
    split
    · exact .skip fun _ => leaves_pure named
    · exact leaves_pure named
  · exact leaves_pure (.of_row rfl (.inl rfl) rfl (List.forall_mem_nil _))

theorem leaves_exportSpecifiers {isLocal : Bool} (entries : List ExportEntry) :
    Leaves (entries.mapM (exportSpecifier isLocal)) fun nodes => ∀ node ∈ nodes, node.IsPlain := by
  induction entries with
  | nil =>
      rw [List.mapM_nil]
      exact leaves_pure (List.forall_mem_nil _)
  | cons entry rest ih =>
      rw [List.mapM_cons]
      exact leaves_exportSpecifier.bind fun _ node_plain => ih.bind fun _ all =>
        leaves_pure (List.forall_mem_cons.2 ⟨node_plain, all⟩)

theorem leaves_exportList {start : Nat} : Leaves (exportList start) IsPlain := by
  have rest {entries : List ExportEntry} {source : Option String} {marks : List Node}
      (marks_plain : ∀ mark ∈ marks, mark.IsPlain) :
      Leaves (do
        semicolon
        let specifiers ← entries.mapM (exportSpecifier source.isNone)
        Reader.node start (.exportList source) (specifiers ++ marks)) IsPlain :=
    .skip fun _ => (leaves_exportSpecifiers entries).bind fun _ all => leaves_node fun _ =>
      .of_row rfl (.inl rfl) rfl (List.forall_mem_append.2 ⟨all, marks_plain⟩)
  refine .skip fun entries => .skip fun hasSource => .either fun source => ?_
  dsimp only
  split
  · exact leaves_importAttributes.bind fun _ => rest
  · exact .given (rest (List.forall_mem_nil _))

theorem leaves_exportAll {start : Nat} : Leaves (exportAll start) IsPlain := by
  refine .skip fun _ => .skip fun isRenamed => .either fun exported => .skip fun _ =>
    .skip fun _ => ?_
  exact leaves_importAttributes.bind fun _ all => .skip fun _ => leaves_node fun _ =>
    .of_row rfl (.inl rfl) rfl all

namespace Shapes

variable {grammar : Grammar} (shapes : Shapes grammar)

include shapes

/-- A declaration of a function is no part of a function. -/
theorem functionPlain {start : Nat} {form : FunctionForm} {isAsync nameless : Bool} :
    Leaves (Reader.functionFrom grammar start form isAsync nameless) IsPlain :=
  shapes.functionFrom.mono fun function holds => by
    obtain ⟨shaped, isGenerator, kind_eq⟩ := holds
    exact ⟨shaped, by rw [kind_eq]; rfl⟩

/-- Neither is that of a class. -/
theorem classPlain {start : Nat} {marks : List Node} {isDeclaration : Bool}
    (all : ∀ mark ∈ marks, mark.IsValue) :
    Leaves (Reader.classFrom grammar start marks isDeclaration) IsPlain :=
  (shapes.classFrom all).mono fun class_ holds => by
    obtain ⟨shaped, hasParent, kind_eq⟩ := holds
    exact ⟨shaped, by rw [kind_eq]; rfl⟩

theorem exportDefault {start : Nat} : Leaves (exportDefault grammar start) IsPlain := by
  have exported {reader : Reader Node} (leaves : Leaves reader IsPlain) :
      Leaves (do let item ← reader; node start .exportDefault [item]) IsPlain :=
    leaves.bind fun _ item_plain => leaves_node fun _ =>
      .of_row rfl (.inl rfl) rfl (List.forall_mem_singleton.2 item_plain)
  refine .skip fun token => .skip fun second => ?_
  dsimp only
  split
  · exact exported shapes.functionPlain
  split
  · exact .skip fun _ => exported shapes.functionPlain
  split
  · exact exported (shapes.classPlain (List.forall_mem_nil _))
  split
  · exact shapes.decorators.bind fun _ all => exported (shapes.classPlain all)
  · exact shapes.assignment.bind fun _ value => .skip fun _ => exported (leaves_pure value.plain)

theorem exportItem : Leaves (exportItem grammar) IsPlain := by
  refine .skip fun _ => .skip fun _ => .skip fun _ => .skip fun isList => ?_
  split
  · exact leaves_exportList
  refine .skip fun isAll => ?_
  split
  · exact leaves_exportAll
  refine .skip fun isDefault => ?_
  split
  · exact shapes.exportDefault
  · refine .skip fun _ => (shapes.statement false).bind fun item item_plain => ?_
    have exported {start : Nat} : Leaves (node start .exportDeclaration [item]) IsPlain :=
      leaves_node fun _ => .of_row rfl (.inl rfl) rfl (List.forall_mem_singleton.2 item_plain)
    split
    · exact exported
    · exact .skip fun _ => exported

/-! ## Variables and control flow -/

theorem declarator : Leaves (declarator grammar) IsPlain := by
  refine .skip fun _ => shapes.pattern.bind fun pattern pattern_value => .skip fun isGiven => ?_
  split
  · exact shapes.assignment.bind fun value value_holds => leaves_node fun _ =>
      (IsValue.of_row rfl rfl (by simp [pattern_value, value_holds])).plain
  · exact leaves_node fun _ =>
      (IsValue.of_row rfl rfl (List.forall_mem_singleton.2 pattern_value)).plain

theorem declarators : Leaves (declarators grammar) fun items => ∀ item ∈ items, item.IsPlain := by
  refine shapes.declarator.bind fun first first_plain => ?_
  refine leaves_loop (fun items => ∀ item ∈ items, item.IsPlain)
    (by simpa using first_plain) fun items all => ?_
  refine .skip fun goesOn => ?_
  split
  · exact shapes.declarator.bind fun _ item_plain => leaves_pure (forall_mem_snoc all item_plain)
  · exact leaves_pure all

theorem variableStatement {form : VariableForm} {words : Nat} :
    Leaves (variableStatement grammar form words) IsPlain :=
  .skip fun _ => .skip fun _ => shapes.declarators.bind fun _ all => .require (.skip fun _ =>
    leaves_node fun _ => .of_row rfl (.inl rfl) rfl all)

theorem condition : Leaves (condition grammar) IsValue :=
  .skip fun _ => shapes.expression.bracketed.bind fun _ test_value => .skip fun _ =>
    leaves_pure test_value

theorem block : Leaves (block grammar) IsPlain :=
  .skip fun _ => .skip fun _ => (shapes.statementList closesBlock).bind fun _ all => .skip fun _ =>
    leaves_node fun _ => .of_row rfl (.inl rfl) rfl all

theorem ifStatement : Leaves (ifStatement grammar) IsPlain := by
  refine .skip fun _ => .skip fun _ => shapes.condition.bind fun test test_value => ?_
  refine (shapes.statement true).bind fun first first_plain => .skip fun isElse => ?_
  split
  · exact (shapes.statement true).bind fun _ second_plain => leaves_node fun _ =>
      .of_row rfl (.inl rfl) rfl (by simp [test_value.plain, first_plain, second_plain])
  · exact leaves_node fun _ =>
      .of_row rfl (.inl rfl) rfl (by simp [test_value.plain, first_plain])

theorem loopOver {start : Nat} {head : Node} {isAwait : Bool} (head_plain : head.IsPlain) :
    Leaves (loopOver grammar start head isAwait) IsPlain := by
  refine .skip fun isOf => ?_
  split
  · exact shapes.assignment.bracketed.bind fun _ items_value => .skip fun _ =>
      (shapes.statement true).bind fun _ body_plain => leaves_node fun _ =>
        .of_row rfl (.inl rfl) rfl (by simp [head_plain, items_value.plain, body_plain])
  · exact .forbid (.skip fun _ => shapes.expression.bracketed.bind fun _ object_value =>
      .skip fun _ => (shapes.statement true).bind fun _ body_plain => leaves_node fun _ =>
        .of_row rfl (.inl rfl) rfl (by simp [head_plain, object_value.plain, body_plain]))

theorem loopPart {close : String} :
    Leaves (loopPart grammar close) fun part => ∀ node ∈ part, node.IsPlain := by
  refine .skip fun isEmpty => ?_
  split
  · exact leaves_pure (List.forall_mem_nil _)
  · exact shapes.expression.bracketed.bind fun _ part_value => .skip fun _ =>
      leaves_pure (List.forall_mem_singleton.2 part_value.plain)

theorem loopWhile {start : Nat} {first : List Node} (first_plain : ∀ node ∈ first, node.IsPlain) :
    Leaves (loopWhile grammar start first) IsPlain := by
  refine .skip fun _ => shapes.loopPart.bind fun test test_plain => ?_
  refine shapes.loopPart.bind fun update update_plain => ?_
  refine (shapes.statement true).bind fun body body_plain => leaves_node fun _ => ?_
  exact .of_row rfl (.inl rfl) rfl (forall_mem_snoc (List.forall_mem_append.2
    ⟨List.forall_mem_append.2 ⟨first_plain, test_plain⟩, update_plain⟩) body_plain)

theorem declaringLoop {start : Nat} {isAwait : Bool} {form : VariableForm} {words : Nat} :
    Leaves (declaringLoop grammar start isAwait form words) IsPlain := by
  refine .skip fun _ => .skip fun _ => shapes.declarators.within.bind fun items all => ?_
  refine (leaves_node fun _ => ?_ : Leaves _ IsPlain).bind fun head head_plain => ?_
  · exact .of_row rfl (.inl rfl) rfl all
  refine .skip fun isOf => .skip fun isIn => ?_
  split
  · split
    · exact shapes.loopOver head_plain
    · refine .skip fun isIn => ?_
      split
      · exact shapes.loopOver head_plain
      · exact leaves_unexpected
    · exact leaves_unexpected
  · exact .forbid (.require (shapes.loopWhile (List.forall_mem_singleton.2 head_plain)))

theorem forLoop : Leaves (forLoop grammar) IsPlain := by
  refine .skip fun _ => .skip fun _ => .skip fun isAwait => .skip fun context => ?_
  extract_lets counts rest
  have continues : Leaves (rest ()) IsPlain := by
    refine .skip fun _ => .skip fun isEmpty => ?_
    split
    · exact .forbid (shapes.loopWhile (List.forall_mem_nil _))
    refine .skip fun declared => ?_
    split
    · exact shapes.declaringLoop
    · refine .skip fun isAsync => .skip fun second => ?_
      refine shapes.expression.within.bind fun first first_value => .skip fun isOf => ?_
      refine .forbid (.skip fun isOf => .skip fun isIn => ?_)
      split
      · exact (leaves_target first_value).bind fun _ goal_value => shapes.loopOver goal_value.plain
      · exact .forbid (shapes.loopWhile (List.forall_mem_singleton.2 first_value.plain))
  split
  · exact .skip fun _ => continues
  · exact continues

theorem whileLoop : Leaves (whileLoop grammar) IsPlain :=
  .skip fun _ => .skip fun _ => shapes.condition.bind fun _ test_value =>
    (shapes.statement true).bind fun _ body_plain => leaves_node fun _ =>
      .of_row rfl (.inl rfl) rfl (by simp [test_value.plain, body_plain])

theorem doLoop : Leaves (doLoop grammar) IsPlain :=
  .skip fun _ => .skip fun _ => (shapes.statement true).bind fun _ body_plain => .skip fun _ =>
    shapes.condition.bind fun _ test_value => .skip fun _ => leaves_node fun _ =>
      .of_row rfl (.inl rfl) rfl (by simp [test_value.plain, body_plain])

theorem withStatement : Leaves (withStatement grammar) IsPlain :=
  .skip fun _ => .skip fun _ => shapes.condition.bind fun _ object_value =>
    (shapes.statement true).bind fun _ body_plain => leaves_node fun _ =>
      .of_row rfl (.inl rfl) rfl (by simp [object_value.plain, body_plain])

theorem switchCase : Leaves (switchCase grammar) IsPlain := by
  refine .skip fun _ => .skip fun isDefault => ?_
  extract_lets rest
  have closes {test : List Node} (test_plain : ∀ node ∈ test, node.IsPlain) :
      Leaves (rest test) IsPlain :=
    .skip fun _ => (shapes.statementList closesCase).bind fun _ all => leaves_node fun _ =>
      .of_row rfl (.inl rfl) rfl (List.forall_mem_append.2 ⟨test_plain, all⟩)
  split
  · exact .given (closes (List.forall_mem_nil _))
  · exact .skip fun _ => shapes.expression.bracketed.bind fun _ test_value =>
      .given (closes (List.forall_mem_singleton.2 test_value.plain))

theorem switchStatement : Leaves (switchStatement grammar) IsPlain := by
  refine .skip fun _ => .skip fun _ => shapes.condition.bind fun object object_value =>
    .skip fun _ => ?_
  refine (leaves_loop (fun items => ∀ item ∈ items, item.IsPlain) (List.forall_mem_nil _)
    fun items all => ?_ : Leaves _ fun items : List Node => ∀ item ∈ items, item.IsPlain).bind
      fun items all => leaves_node fun _ =>
        .of_row rfl (.inl rfl) rfl (List.forall_mem_cons.2 ⟨object_value.plain, all⟩)
  refine .skip fun closes => ?_
  split
  · exact leaves_pure all
  · exact shapes.switchCase.bind fun _ case_plain => leaves_pure (forall_mem_snoc all case_plain)

theorem catchClause : Leaves (catchClause grammar) IsPlain := by
  have rest {start : Nat} {input : List Node} (input_plain : ∀ node ∈ input, node.IsPlain) :
      Leaves (do
        let body ← Reader.block grammar
        node start (.catchClause !input.isEmpty) (input ++ [body])) IsPlain :=
    shapes.block.bind fun _ body_plain => leaves_node fun _ =>
      .of_row rfl (.inl rfl) rfl (forall_mem_snoc input_plain body_plain)
  refine .skip fun _ => .skip fun _ => .skip fun hasInput => ?_
  split
  · exact shapes.pattern.bind fun _ pattern_value => .skip fun _ =>
      .given (rest (List.forall_mem_singleton.2 pattern_value.plain))
  · exact .given (rest (List.forall_mem_nil _))

theorem tryStatement : Leaves (tryStatement grammar) IsPlain := by
  refine .skip fun _ => .skip fun _ => shapes.block.bind fun body body_plain =>
    .skip fun hasHandler => ?_
  refine shapes.catchClause.optional fun handler handler_plain => .skip fun hasFinalizer => ?_
  refine shapes.block.optional fun finalizer finalizer_plain => .forbid (leaves_node fun _ => ?_)
  exact .of_row rfl (.inl rfl) rfl (List.forall_mem_append.2
    ⟨List.forall_mem_cons.2 ⟨body_plain, handler_plain⟩, finalizer_plain⟩)

theorem returnStatement : Leaves (returnStatement grammar) IsPlain := by
  have rest {start : Nat} {value : List Node} (value_plain : ∀ node ∈ value, node.IsPlain) :
      Leaves (do semicolon; node start .returnStatement value) IsPlain :=
    .skip fun _ => leaves_node fun _ => .of_row rfl (.inl rfl) rfl value_plain
  refine .skip fun _ => .skip fun context => .require (.skip fun _ => .skip fun token => ?_)
  split
  · exact .given (rest (List.forall_mem_nil _))
  · exact shapes.expression.bind fun _ value_holds =>
      .given (rest (List.forall_mem_singleton.2 value_holds.plain))

theorem throwStatement : Leaves (throwStatement grammar) IsPlain :=
  .skip fun _ => .skip fun _ => .skip fun _ => .forbid (shapes.expression.bind fun _ value_holds =>
    .skip fun _ => leaves_node fun _ =>
      .of_row rfl (.inl rfl) rfl (List.forall_mem_singleton.2 value_holds.plain))

/-! ## Statements -/

/-- A statement that is an expression is made of a value. -/
theorem expressionStatement : Leaves (expressionStatement grammar) IsPlain := by
  refine .skip fun token => .skip fun second => ?_
  split
  · exact .skip fun _ => .skip fun _ => (shapes.statement true).bind fun _ body_plain =>
      leaves_node fun _ => .of_row rfl (.inl rfl) rfl (List.forall_mem_singleton.2 body_plain)
  · exact shapes.expression.bind fun _ value_holds => .skip fun _ => leaves_node fun _ =>
      .of_row rfl (.inl rfl) rfl (List.forall_mem_singleton.2 value_holds.plain)

end Shapes

/-- A statement made of words alone. -/
theorem leaves_jump {kind : Option String → NodeKind}
    (no_part : ∀ label, (kind label).isPart = false)
    (no_value : ∀ label, (kind label).isValue = false)
    (row : ∀ label, (kind label).isRow) : Leaves (jump kind) IsPlain :=
  .skip fun _ => .skip fun _ => .skip fun label => .skip fun _ => leaves_node fun _ =>
    .of_row (no_part label) (.inl (no_value label)) (row label) (List.forall_mem_nil _)

namespace Shapes

variable {grammar : Grammar} (shapes : Shapes grammar)

include shapes

theorem wordStatement {isSingle : Bool} {text : String} :
    Leaves (wordStatement grammar isSingle text) IsPlain := by
  refine .skip fun _ => ?_
  split
  · exact shapes.ifStatement
  · exact shapes.forLoop
  · exact shapes.whileLoop
  · exact shapes.doLoop
  · exact shapes.withStatement
  · exact shapes.switchStatement
  · exact shapes.tryStatement
  · exact leaves_jump (fun _ => rfl) (fun _ => rfl) fun _ => rfl
  · exact leaves_jump (fun _ => rfl) (fun _ => rfl) fun _ => rfl
  · exact shapes.returnStatement
  · exact shapes.throwStatement
  · exact .skip fun _ => .skip fun _ => leaves_node fun _ =>
      .of_row rfl (.inl rfl) rfl (List.forall_mem_nil _)
  · refine shapes.functionPlain.bind fun item item_plain => ?_
    split
    · exact .skip fun _ => leaves_pure item_plain
    · exact leaves_pure item_plain
  · refine .skip fun second => ?_
    split
    · exact shapes.expressionStatement
    · exact leaves_importDeclaration
  · exact shapes.exportItem
  · exact .forbid (shapes.classPlain (List.forall_mem_nil _))
  · refine .skip fun second => ?_
    split
    · exact .forbid (.skip fun _ => shapes.functionPlain)
    · exact shapes.expressionStatement
  · exact shapes.expressionStatement

theorem statementProduction {isSingle : Bool} :
    Leaves (statementProduction grammar isSingle) IsPlain := by
  refine .skip fun token => ?_
  dsimp only
  split
  · exact shapes.block
  · exact .skip fun _ => leaves_node fun _ => .of_row rfl (.inl rfl) rfl (List.forall_mem_nil _)
  · exact .forbid (shapes.decorators.bind fun _ all => shapes.classPlain all)
  · refine .skip fun declared => ?_
    split
    · exact .forbid shapes.variableStatement
    · exact shapes.wordStatement
  · exact shapes.expressionStatement

end Shapes
end Reader

/-! ## Programs -/

/-- A grammar of any depth leaves trees of the right shape. -/
theorem shapes_grammar (depth : Nat) : Reader.Shapes (grammar depth) := by
  induction depth with
  | zero =>
      exact
        { assignment := Reader.leaves_unexpected
          unary := Reader.leaves_unexpected
          leftHand := Reader.leaves_unexpected
          callee := Reader.leaves_unexpected
          pattern := Reader.leaves_unexpected
          statement := fun _ => Reader.leaves_unexpected }
  | succ depth shapes =>
      exact
        { assignment := shapes.assignmentProduction
          unary := shapes.unaryProduction
          leftHand := shapes.leftHandProduction
          callee := shapes.calleeProduction
          pattern := shapes.patternProduction
          statement := fun _ => shapes.statementProduction }

/-- The statements of a program are of the right shape, whichever goal it is read for. -/
theorem isPlain_readGoal {allowsAwait : Bool} {text : List Char} {program : Program}
    {state : ReadState} (read : readGoal allowsAwait text = .ok (program, state)) :
    ∀ statement ∈ program.body, statement.IsPlain := by
  obtain ⟨-, start, statements, ended, -, run, body_eq, -⟩ := statements_of_readGoal read
  have all := (shapes_grammar (depthLimit text.length)).statementList _ _ _ statements ended run
  rw [body_eq]
  exact fun statement listed => all statement ((Reader.suffix_splitDirectives statements).mem listed)

/-- The statements of a script that was read are of the right shape, and none is a part of a
function. -/
theorem Script.isPlain_of_read {text file : String} {script : Script}
    (read : Script.read text file = .ok script) :
    ∀ statement ∈ script.program.body, statement.IsPlain := by
  unfold Script.read at read
  split at read
  · rename_i program program_read
    obtain rfl := Except.ok.inj read
    obtain ⟨allowsAwait, state, goal_read⟩ := Program.exists_readGoal program_read
    exact isPlain_readGoal goal_read
  · contradiction

end Shakedown
