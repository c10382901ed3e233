import Shakedown.Text.Basic

/-!
# Syntax trees of scripts

A tree is made of nodes of one type. A node says what it is, which bytes of the text it takes up,
and which nodes it is made of, in the order of the text. What it is holds all that two programs can
differ in besides their layout: names without escapes, operators, literals as they are written.

Names fall into three sorts. A *reference* uses a name, a *binding* declares one, and a *property
name* is neither. Parentheses are nodes of their own.
-/

namespace Shakedown

/-- How a function is written. -/
inductive FunctionForm
  /-- A statement that declares its name. -/
  | declaration
  /-- An expression, which sees its own name. -/
  | expression
  /-- The function of a method or accessor. -/
  | method
  deriving DecidableEq, Repr, Inhabited

/-- How a variable is declared. -/
inductive VariableForm
  | var
  | let_
  | const
  | using_
  | awaitUsing
  deriving DecidableEq, Repr, Inhabited

/-- Whether the variables belong to the block that they are declared in. -/
def VariableForm.isLexical : VariableForm → Bool
  | var => false
  | _ => true

/-- What a member of an object or class does. -/
inductive MemberForm
  | value
  | shorthand
  | method
  | getter
  | setter
  deriving DecidableEq, Repr, Inhabited

/-- What a node is. The comment tells the children; a question mark stands for one that may be
missing, a star for any number. -/
inductive NodeKind
  /-- Use of a name. -/
  | reference (name : String)
  /-- Declaration of a name. -/
  | binding (name : String)
  /-- Name of a property. -/
  | propertyName (name : String)
  /-- Name of a private member. -/
  | privateName (name : String)
  /-- A string, with its value and as it is written. -/
  | string (value raw : String)
  /-- A number, as it is written. -/
  | number (raw : String)
  /-- A regular expression, as it is written. -/
  | regex (raw : String)
  /-- `this`, `super`, `null`, `true` or `false`. -/
  | keyword (word : String)
  /-- Substitutions*, between the pieces. -/
  | template (pieces : List String)
  /-- Tag, template. -/
  | taggedTemplate
  /-- Elements*. -/
  | array
  /-- An element that is left out. -/
  | hole
  /-- Members*. -/
  | object
  /-- Key, value; the key is an expression when it is computed. -/
  | property (form : MemberForm) (isComputed : Bool)
  /-- Name, name, standard value: a shorthand that only a pattern may hold. -/
  | shorthandDefault
  /-- Expression. -/
  | spread
  /-- Expression. -/
  | parenthesized
  /-- Binding?, parameters, body. -/
  | function (form : FunctionForm) (isAsync isGenerator : Bool)
  /-- Parameters, body. -/
  | arrow (isAsync isExpression : Bool)
  /-- Patterns*. -/
  | parameters
  /-- Decorators*, pattern. -/
  | decorated
  /-- Statements*, without the directives. -/
  | body (directives : List String)
  /-- Decorators*, binding?, superclass?, members. -/
  | classDefinition (isDeclaration hasParent : Bool)
  /-- Members*. -/
  | classBody
  /-- Decorators*, key, function. -/
  | classMethod (form : MemberForm) (isStatic isComputed : Bool)
  /-- Decorators*, key, value?. -/
  | classField (isStatic isComputed isAccessor : Bool)
  /-- Statements*. -/
  | staticBlock
  /-- Expression. -/
  | decorator
  /-- Object; the property is named. -/
  | member (property : String) (isOptional : Bool)
  /-- Object; the property is private. -/
  | privateMember (property : String) (isOptional : Bool)
  /-- Object, expression. -/
  | index (isOptional : Bool)
  /-- A member or call with an optional link somewhere to its left. -/
  | chain
  /-- Callee, arguments*. -/
  | call (isOptional : Bool)
  /-- Callee, arguments*. -/
  | construct
  /-- Arguments*. -/
  | importCall (phase : String)
  /-- `new.target` or `import.meta`. -/
  | metaProperty (first second : String)
  /-- Operand. -/
  | unary (operator : String)
  /-- Target. -/
  | update (operator : String) (isBefore : Bool)
  /-- Left, right. -/
  | binary (operator : String)
  /-- Test, first, second. -/
  | conditional
  /-- Target, value. -/
  | assignment (operator : String)
  /-- Expressions*. -/
  | sequence
  /-- Operand. -/
  | await
  /-- Operand?. -/
  | yield (isDelegate : Bool)
  /-- Elements*, of a pattern. -/
  | arrayPattern
  /-- Members*, of a pattern. -/
  | objectPattern
  /-- Key, pattern. -/
  | patternProperty (form : MemberForm) (isComputed : Bool)
  /-- Pattern, standard value. -/
  | withDefault
  /-- Pattern. -/
  | rest
  /-- Declarators*. -/
  | variables (form : VariableForm)
  /-- Pattern, value?. -/
  | declarator
  /-- Expression. -/
  | expressionStatement
  /-- Statements*. -/
  | block
  | emptyStatement
  | debuggerStatement
  /-- Test, statement, statement?. -/
  | ifStatement
  /-- Parts*, statement; which of the three parts are there is told. -/
  | forStatement (hasStart hasTest hasUpdate : Bool)
  /-- Head, object, statement. -/
  | forInStatement
  /-- Head, iterable, statement. -/
  | forOfStatement (isAwait : Bool)
  /-- Test, statement. -/
  | whileStatement
  /-- Statement, test. -/
  | doWhileStatement
  /-- Object, statement. -/
  | withStatement
  /-- Expression, cases*. -/
  | switchStatement
  /-- Test?, statements*. -/
  | switchCase (isDefault : Bool)
  /-- Block, handler?, block?. -/
  | tryStatement (hasHandler hasFinalizer : Bool)
  /-- Pattern?, block. -/
  | catchClause (hasParameter : Bool)
  /-- Expression?. -/
  | returnStatement
  /-- Expression. -/
  | throwStatement
  | breakStatement (label : Option String)
  | continueStatement (label : Option String)
  /-- Statement. -/
  | labeled (label : String)
  /-- Specifiers*, attributes*. -/
  | importDeclaration (source phase : String) (hasClause : Bool)
  /-- Binding. -/
  | importDefault
  /-- Binding. -/
  | importNamespace
  /-- Binding. -/
  | importSpecifier (imported : String)
  /-- A key and a value of an import or export. -/
  | importAttribute (key value : String)
  /-- Declaration. -/
  | exportDeclaration
  /-- Specifiers*, attributes*. -/
  | exportList (source : Option String)
  /-- Reference, when the name is one of this module. -/
  | exportSpecifier (name exported : String)
  /-- Attributes*. -/
  | exportAll (source : String) (exported : Option String)
  /-- Declaration or expression. -/
  | exportDefault
  deriving DecidableEq, Repr, Inhabited

/-- A node of a syntax tree. -/
inductive Node
  | mk (kind : NodeKind) (span : Span) (children : List Node)
  deriving Repr, Inhabited

namespace Node

/-- What the node is. -/
def kind : Node → NodeKind
  | mk kind _ _ => kind

/-- The bytes that the node takes up. -/
def span : Node → Span
  | mk _ span _ => span

/-- The nodes that the node is made of. -/
def children : Node → List Node
  | mk _ _ children => children

mutual

/-- The node and all nodes below it, each before those that it is made of. -/
def nodes : Node → List Node
  | mk kind span children => mk kind span children :: nodesOfList children

/-- The nodes of a list of trees. -/
def nodesOfList : List Node → List Node
  | [] => []
  | node :: rest => nodes node ++ nodesOfList rest

end

mutual

/-- The declared names of a pattern: its bindings, without those inside its expressions. -/
def bindings : Node → List Node
  | mk (.binding name) span children => [mk (.binding name) span children]
  | mk .arrayPattern _ elements => bindingsOfList elements
  | mk .objectPattern _ members => bindingsOfList members
  | mk (.patternProperty _ _) _ [_, value] => bindings value
  | mk .withDefault _ [target, _] => bindings target
  | mk .rest _ [target] => bindings target
  | mk .decorated _ parts => bindingsOfList parts
  | _ => []

/-- The declared names of patterns one behind the other. -/
def bindingsOfList : List Node → List Node
  | [] => []
  | node :: rest => bindings node ++ bindingsOfList rest

end

/-- The name that a reference or binding is about. -/
def name? : Node → Option String
  | mk (.reference name) _ _ => some name
  | mk (.binding name) _ _ => some name
  | _ => none

/-- The node inside any parentheses around it. -/
def withoutParentheses : Node → Node
  | mk .parenthesized _ [inner] => inner.withoutParentheses
  | node => node

end Node

/-- A program. -/
structure Program where
  /-- The statements, without the directives. -/
  body : List Node
  /-- The directives, as they are written between their quotes. -/
  directives : List String
  /-- The first line, when it names an interpreter. -/
  hashbang : Option Span
  /-- The comments in the order of the text. -/
  comments : List Span
  /-- Whether the program is a module. -/
  isModule : Bool
  deriving Repr, Inhabited

/-- Whether a directive asks for strict mode. -/
def asksStrict (directives : List String) : Bool :=
  directives.contains "use strict"

/-- Whether the whole program is in strict mode. -/
def Program.isStrict (program : Program) : Bool :=
  program.isModule || asksStrict program.directives

/-- All nodes of a program, each before those that it is made of. -/
def Program.nodes (program : Program) : List Node :=
  Node.nodesOfList program.body

end Shakedown
