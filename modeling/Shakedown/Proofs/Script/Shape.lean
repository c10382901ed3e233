import Shakedown.Proofs.Scope.Reading

/-!
# The shape of trees

What a node may be made of depends on what it is. Parameters stand in functions only, what an
expression or pattern is made of declares nothing around it outside functions, names are made of
nothing, and the word that a shorthand begins with is no name itself.
-/

namespace Shakedown

/-- Whether nodes of the kind are or belong to expressions, patterns and declarators, not to other
parts of statements, and are no parameters or bodies of functions. -/
def NodeKind.isValue : NodeKind → Bool
  | .function .declaration _ _ => false
  | .parameters => false
  | .body _ => false
  | .classDefinition isDeclaration _ => !isDeclaration
  | .variables _ => false
  | .expressionStatement => false
  | .block => false
  | .emptyStatement => false
  | .debuggerStatement => false
  | .ifStatement => false
  | .forStatement _ _ _ => false
  | .forInStatement => false
  | .forOfStatement _ => false
  | .whileStatement => false
  | .doWhileStatement => false
  | .withStatement => false
  | .switchStatement => false
  | .switchCase _ => false
  | .tryStatement _ _ => false
  | .catchClause _ => false
  | .returnStatement => false
  | .throwStatement => false
  | .breakStatement _ => false
  | .continueStatement _ => false
  | .labeled _ => false
  | .importDeclaration _ _ _ => false
  | .importDefault => false
  | .importNamespace => false
  | .importSpecifier _ => false
  | .importAttribute _ _ => false
  | .exportDeclaration => false
  | .exportList _ => false
  | .exportSpecifier _ _ => false
  | .exportAll _ _ => false
  | .exportDefault => false
  | _ => true

/-- Whether what nodes of the kind are made of lies in a row, whatever it is. -/
def NodeKind.isRow (kind : NodeKind) : Bool :=
  kind.arrangement != .named && !kind.isName

/-- Whether nodes of the kind are the body of a function. -/
def NodeKind.isBody : NodeKind → Bool
  | .body _ => true
  | _ => false

/-- Whether nodes of the kind are what only functions are made of. -/
def NodeKind.isPart : NodeKind → Bool
  | .parameters => true
  | kind => kind.isBody

namespace Node

/-- What a node is made of fits what it is. -/
structure IsFormed (node : Node) : Prop where
  /-- Values are made of values, but for what is in the scope of a function. -/
  values : node.kind.isValue → node.kind.opensFunction = false →
    ∀ child ∈ node.children, child.kind.isValue
  /-- Parameters and bodies stand in functions. -/
  parts : node.kind.opensFunction = false → ∀ child ∈ node.children, child.kind.isPart = false
  /-- The body is the last part of a function. -/
  body : node.kind.opensFunction → ∀ child ∈ node.children.dropLast, child.kind.isBody = false
  /-- The word that a shorthand begins with is no name. -/
  key : node.kind.arrangement = .named → ∀ key ∈ node.children.head?, key.kind.isName = false
  /-- A name is made of nothing. -/
  name : node.kind.isName → node.children = []

/-- All nodes of a tree are made of what fits them. -/
def IsShaped (node : Node) : Prop :=
  ∀ inner ∈ node.nodes, inner.IsFormed

variable {node : Node} {kind : NodeKind} {span : Span} {children : List Node}

theorem isShaped_iff : node.IsShaped ↔ node.IsFormed ∧ ∀ child ∈ node.children, child.IsShaped := by
  constructor
  · exact fun all => ⟨all node (mem_nodes.2 (.inl rfl)), fun child member inner below =>
      all inner (mem_nodes.2 (.inr ⟨child, member, below⟩))⟩
  · rintro ⟨formed, all⟩ inner below
    obtain rfl | ⟨child, member, below⟩ := mem_nodes.1 below
    · exact formed
    · exact all child member inner below

theorem arrangement_of_isRow (row : kind.isRow) : kind.arrangement ≠ .named ∧ kind.isName = false := by
  simpa [NodeKind.isRow] using row

/-- A body is a part of a function. -/
theorem isBody_of_isPart {kind : NodeKind} (no_part : kind.isPart = false) :
    kind.isBody = false := by
  cases kind <;> first | rfl | contradiction

namespace IsShaped

theorem formed (shaped : node.IsShaped) : node.IsFormed :=
  (isShaped_iff.1 shaped).1

theorem child (shaped : (mk kind span children).IsShaped) {inner : Node}
    (member : inner ∈ children) : inner.IsShaped :=
  (isShaped_iff.1 shaped).2 inner member

/-- Outside functions a tree other than parameters has no parameters. -/
theorem permits_of_isPart (shaped : node.IsShaped) (no_part : node.kind.isPart = false) :
    node.Permits true false := by
  intro inner among
  refine ⟨fun _ => rfl, fun parameters => ?_⟩
  induction node using Node.induction with
  | step kind span children ih =>
      obtain rfl | ⟨opens, child, listed, among⟩ := mem_nodesOutside.1 among
      · rw [parameters] at no_part
        contradiction
      · exact ih child listed (shaped.child listed) (shaped.formed.parts opens child listed) among

/-- An expression or pattern declares nothing around it. -/
theorem permits_of_isValue (shaped : node.IsShaped) (value : node.kind.isValue) :
    node.Permits false false := by
  intro inner among
  have inner_value : inner.kind.isValue := by
    induction node using Node.induction with
    | step kind span children ih =>
        obtain rfl | ⟨opens, child, listed, among⟩ := mem_nodesOutside.1 among
        · exact value
        · exact ih child listed (shaped.child listed)
            (shaped.formed.values value opens child listed) among
  obtain ⟨kind, span, children⟩ := inner
  constructor
  · intro declares
    change kind.isValue = true at inner_value
    change kind.declares = true at declares
    unfold NodeKind.declares at declares
    split at declares <;> simp_all [NodeKind.isValue]
  · intro parameters
    rw [parameters] at inner_value
    contradiction

/-- Neither does a statement that is an expression. -/
theorem permits_expressionStatement {expression : Node}
    (shaped : (mk .expressionStatement span [expression]).IsShaped)
    (value : expression.kind.isValue) :
    (mk .expressionStatement span [expression]).Permits false false := by
  intro inner among
  obtain rfl | ⟨-, child, listed, below⟩ := mem_nodesOutside.1 among
  · exact ⟨nofun, nofun⟩
  · obtain rfl := List.mem_singleton.1 listed
    exact (shaped.child List.mem_cons_self).permits_of_isValue value inner below

/-- A node whose children are no parts of functions. -/
theorem of_children (below : ∀ child ∈ children, child.IsShaped ∧ child.kind.isPart = false)
    (values : kind.isValue → kind.opensFunction = false → ∀ child ∈ children, child.kind.isValue)
    (key : kind.arrangement = .named → ∀ key ∈ children.head?, key.kind.isName = false)
    (name : kind.isName → children = []) : (mk kind span children).IsShaped := by
  refine isShaped_iff.2 ⟨⟨values, fun _ child listed => (below child listed).2,
    fun _ child listed => ?_, key, name⟩, fun child listed => (below child listed).1⟩
  exact isBody_of_isPart (below child ((List.dropLast_sublist _).mem listed)).2

/-- A function: what stands before its body is no body. -/
theorem function (opens : kind.opensFunction) (row : kind.isRow) {named : List Node}
    {inputs body : Node} (named_below : ∀ child ∈ named, child.IsShaped ∧ child.kind.isBody = false)
    (inputs_shaped : inputs.IsShaped) (no_body : inputs.kind.isBody = false)
    (body_shaped : body.IsShaped) : (mk kind span (named ++ [inputs, body])).IsShaped := by
  have before : ∀ child ∈ named ++ [inputs], child.IsShaped ∧ child.kind.isBody = false :=
    List.forall_mem_append.2 ⟨named_below, List.forall_mem_singleton.2 ⟨inputs_shaped, no_body⟩⟩
  have children_eq : named ++ [inputs, body] = (named ++ [inputs]) ++ [body] := by simp
  rw [children_eq]
  obtain ⟨arranged, no_name⟩ := arrangement_of_isRow row
  refine isShaped_iff.2 ⟨⟨fun _ closed => ?_, fun closed => ?_, fun _ child listed => ?_,
    fun named => absurd named arranged, fun is_name => absurd is_name (by simp [Node.kind, no_name])⟩,
    List.forall_mem_append.2 ⟨fun child listed =>
      (before child listed).1, List.forall_mem_singleton.2 body_shaped⟩⟩
  · exact absurd opens (Bool.eq_false_iff.1 closed)
  · exact absurd opens (Bool.eq_false_iff.1 closed)
  · rw [Node.children, List.dropLast_concat] at listed
    exact (before child listed).2

end IsShaped

/-! ## Values and statements -/

/-- A tree of the right shape that is an expression or pattern or part of one. -/
def IsValue (node : Node) : Prop :=
  node.IsShaped ∧ node.kind.isValue

/-- A tree of the right shape that is no part of a function. -/
def IsPlain (node : Node) : Prop :=
  node.IsShaped ∧ node.kind.isPart = false

theorem IsValue.plain (value : node.IsValue) : node.IsPlain := by
  obtain ⟨kind, span, children⟩ := node
  obtain ⟨shaped, is_value⟩ := value
  refine ⟨shaped, ?_⟩
  cases kind <;> first | rfl | contradiction

/-- A node made of values. -/
theorem IsValue.of_children (value : kind.isValue) (below : ∀ child ∈ children, child.IsValue)
    (key : kind.arrangement = .named → ∀ key ∈ children.head?, key.kind.isName = false)
    (name : kind.isName → children = []) : (mk kind span children).IsValue :=
  ⟨.of_children (fun child listed => (below child listed).plain)
    (fun _ _ child listed => (below child listed).2) key name, value⟩

/-- A node made of values that lie one behind the other. -/
theorem IsValue.of_row (value : kind.isValue) (row : kind.isRow)
    (below : ∀ child ∈ children, child.IsValue) : (mk kind span children).IsValue :=
  .of_children value below (fun named => absurd named (arrangement_of_isRow row).1)
    fun is_name => absurd is_name (by simp [(arrangement_of_isRow row).2])

theorem IsValue.leaf (value : kind.isValue) : (mk kind span []).IsValue :=
  .of_children value nofun nofun fun _ => rfl

/-- A shorthand: the word that stands for the name, and what takes or has its value. -/
theorem IsValue.shorthand {taken : Span} {text : String} {others : List Node}
    (named : kind.arrangement = .named) (others_values : ∀ other ∈ others, other.IsValue) :
    (mk kind span (mk (.propertyName text) taken [] :: others)).IsValue := by
  obtain ⟨value, no_name⟩ : kind.isValue ∧ kind.isName = false := by
    cases kind <;> first | exact ⟨rfl, rfl⟩ | contradiction
  refine .of_children value (List.forall_mem_cons.2 ⟨.leaf rfl, others_values⟩) ?_
    fun is_name => absurd is_name (by simp [no_name])
  intro _ key found
  obtain rfl := Option.some.inj found
  rfl

/-- A node made of statements, or a statement made of anything but parts of functions. -/
theorem IsPlain.of_row (no_part : kind.isPart = false)
    (no_value : kind.isValue = false ∨ kind.opensFunction) (row : kind.isRow)
    (below : ∀ child ∈ children, child.IsPlain) : (mk kind span children).IsPlain :=
  ⟨.of_children below (fun value closed => no_value.elim (by simp [value]) (by simp [closed]))
    (fun named => absurd named (arrangement_of_isRow row).1)
    fun is_name => absurd is_name (by simp [(arrangement_of_isRow row).2]), no_part⟩

end Node
end Shakedown
