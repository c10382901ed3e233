import Shakedown.Proofs.Pass.StaticMember
import Shakedown.Proofs.Script.Program
import Shakedown.Proofs.Scope.Declared

/-!
# What members are moved across

Folding moves an assignment up to the class across all statements between the two. The class is
declared before them, and fold makes sure of that for the object of the assignment. It does not ask
where the other names that the assignment evaluates are declared: an assignment can be moved above a
variable that it reads. It is not where each of these names has no declaration in the program or a
single one outside the statements between.
-/

namespace Shakedown

/-- Whether the name means nothing that the program declares, or one declaration outside a range. -/
def Meaning.isOutside (span : Span) : Meaning → Bool
  | .undeclared => true
  | .sole symbol => symbol < span.start || span.stop ≤ symbol
  | .contested _ => false

namespace StaticMember

/-- Whether a node is a function, whose body is not run when the node is evaluated. -/
def isDeferred : NodeKind → Bool
  | .function _ _ _ => true
  | .arrow _ _ => true
  | _ => false

/-- The names that evaluating an expression reads, outside the functions nested in it. -/
def evaluatedNames (expression : Node) : List Node :=
  (Node.nodesOutside isDeferred expression).filter fun node =>
    match node.kind with
    | .reference _ => true
    | _ => false

/-- The names that a statement declares as variables or as a class. -/
def declaredNames : Node → List Node
  | .mk (.variables _) _ declarators =>
      Node.bindingsOfList (ScopeStack.declaredPatterns declarators)
  | .mk (.classDefinition true _) _ parts => ScopeStack.ownNames parts
  | .mk .exportDeclaration _ [declaration] => declaredNames declaration
  | .mk .exportDefault _ [declaration] => declaredNames declaration
  | _ => []

/-- Whether a name means what another name declares. -/
def means (scoping : Scoping) (name binding : Node) : Bool :=
  match (scoping.resolve name.span.start).symbol? with
  | none => false
  | some symbol => scoping.symbolAt? binding.span.start == some symbol

/-- The statements behind a class and before an assignment of one of its members. -/
def statementsBetween (script : Script) (variable_ : ClassVariable) (statement : Node) :
    List Node :=
  script.program.body.filter fun other =>
    variable_.declarationStop ≤ other.span.start && other.span.stop ≤ statement.span.start

/-- Whether an assignment evaluates a name that a statement between the class and the assignment
declares. -/
def readsBetween (script : Script) (variable_ : ClassVariable)
    (statement : Node) (assignment : Metadata.PropertyAssignment) : Bool :=
  (statementsBetween script variable_ statement).any fun other =>
    (declaredNames other).any fun binding =>
      (assignment.object :: evaluatedNames assignment.value).any fun name =>
        means script.scoping name binding

/-! ## Where names are declared -/

theorem mem_nodes_of_mem_declaredNames {statement binding : Node}
    (listed : binding ∈ declaredNames statement) : binding ∈ statement.nodes := by
  induction statement using Node.induction with
  | step kind span children ih =>
      unfold declaredNames at listed
      split at listed
      case h_1 form _ declarators same =>
        obtain ⟨rfl, rfl, rfl⟩ := Node.mk.inj same
        obtain ⟨pattern, among, listed⟩ := Node.mem_bindingsOfList.1 listed
        obtain ⟨declarator, declared, found⟩ := List.mem_filterMap.1 among
        refine Node.mem_nodes.2 (.inr ⟨declarator, declared, ?_⟩)
        split at found
        · obtain rfl := Option.some.inj found
          exact Node.mem_nodes.2 (.inr ⟨_, List.mem_cons_self,
            Node.mem_nodes_of_mem_bindings listed⟩)
        · contradiction
      case h_2 parts same =>
        obtain ⟨rfl, rfl, rfl⟩ := Node.mk.inj same
        exact Node.mem_nodes.2 (.inr ⟨binding, (List.mem_filter.1 listed).1,
          Node.mem_nodes.2 (.inl rfl)⟩)
      case h_3 declaration same =>
        obtain ⟨rfl, rfl, rfl⟩ := Node.mk.inj same
        exact Node.mem_nodes.2 (.inr ⟨declaration, List.mem_cons_self,
          ih declaration List.mem_cons_self listed⟩)
      case h_4 declaration same =>
        obtain ⟨rfl, rfl, rfl⟩ := Node.mk.inj same
        exact Node.mem_nodes.2 (.inr ⟨declaration, List.mem_cons_self,
          ih declaration List.mem_cons_self listed⟩)
      case h_5 => contradiction

/-- The variable of a class is declared in the declaration of the class. -/
theorem exists_declaration {script : Script} {variable_ : ClassVariable}
    (known : variable_ ∈ classes script) : ∃ declaration ∈ script.program.body,
      classVariable? script.scoping declaration = some variable_ ∧
      declaration.span.stop = variable_.declarationStop ∧ ∃ binding ∈ declaration.nodes,
        script.scoping.symbolAt? binding.span.start = some variable_.symbol := by
  obtain ⟨declaration, listed, found⟩ := List.mem_filterMap.1 known
  refine ⟨declaration, listed, found, ?_⟩
  unfold classVariable? at found
  split at found
  · rename_i name nameSpan parts value
    simp only [Option.bind_eq_bind, Option.bind_eq_some_iff] at found
    obtain ⟨symbol, declared, statements, -, returnSpan, -, built⟩ := found
    obtain rfl := Option.some.inj built
    refine ⟨rfl, .mk (.binding name) nameSpan parts, ?_, declared⟩
    exact Node.mem_nodes.2 (.inr ⟨_, List.mem_cons_self, Node.mem_nodes.2 (.inr
      ⟨_, List.mem_cons_self, Node.mem_nodes.2 (.inl rfl)⟩)⟩)
  · contradiction

/-- The object of a member is declared by its class and nowhere else. -/
theorem resolve_object {scoping : Scoping} {statement : Node} {variable_ : ClassVariable}
    {classes : List ClassVariable} {assignment : Metadata.PropertyAssignment}
    (foldable : foldable? scoping classes statement = some (assignment, variable_)) :
    scoping.resolve assignment.object.span.start = .sole variable_.symbol := by
  obtain ⟨-, -, sole, -⟩ := foldable?_eq_some foldable
  unfold Scoping.sole? at sole
  split at sole
  · rename_i meant
    rw [meant, Option.some.inj sole]
  · contradiction

section Read

variable {text file : String} {script : Script} {variable_ : ClassVariable} {statement : Node}
  {assignment : Metadata.PropertyAssignment}

/-- What the statements between declare stands between the class and the assignment. -/
theorem start_of_mem_declaredNames (read : Script.read text file = .ok script)
    {other binding : Node} (between : other ∈ statementsBetween script variable_ statement)
    (declared : binding ∈ declaredNames other) :
    variable_.declarationStop ≤ binding.span.start ∧
      binding.span.start < statement.span.start := by
  have row := (Script.isSpaced_of_read read).row
  obtain ⟨listed, placed⟩ := List.mem_filter.1 between
  obtain ⟨behind, before⟩ : variable_.declarationStop ≤ other.span.start ∧
      other.span.stop ≤ statement.span.start := by simpa using placed
  have below := mem_nodes_of_mem_declaredNames declared
  have inside := Span.covers_iff.1 ((row.spaced other listed).covers below)
  have proper := ((row.spaced other listed).below below).proper
  omega

/-- The class is declared before the end of its declaration. -/
theorem exists_symbolAt? (read : Script.read text file = .ok script)
    (known : variable_ ∈ classes script) : ∃ start < variable_.declarationStop,
      script.scoping.symbolAt? start = some variable_.symbol := by
  have row := (Script.isSpaced_of_read read).row
  obtain ⟨declaration, listed, -, stop_eq, binding, below, declared⟩ := exists_declaration known
  have inside := Span.covers_iff.1 ((row.spaced declaration listed).covers below)
  have proper := ((row.spaced declaration listed).below below).proper
  exact ⟨binding.span.start, by omega, declared⟩

/-- A name that means the class itself, or one declaration outside the statements between the class
and the assignment, is declared by none of these statements. -/
theorem means_eq_false (read : Script.read text file = .ok script)
    (known : variable_ ∈ classes script) {other binding name : Node}
    (between : other ∈ statementsBetween script variable_ statement)
    (declared : binding ∈ declaredNames other)
    (clear : script.scoping.resolve name.span.start = .sole variable_.symbol ∨
      (script.scoping.resolve name.span.start).isOutside
        ⟨variable_.declarationStop, statement.span.start⟩) :
    means script.scoping name binding = false := by
  obtain ⟨behind, before⟩ := start_of_mem_declaredNames read between declared
  refine Bool.eq_false_iff.2 fun meant => ?_
  unfold means at meant
  split at meant
  · contradiction
  rename_i symbol symbol_eq
  have binding_eq : script.scoping.symbolAt? binding.span.start = some symbol := by
    simpa using meant
  cases resolved : script.scoping.resolve name.span.start with
  | undeclared => simp [resolved, Meaning.symbol?] at symbol_eq
  | contested contested => simp [resolved, Meaning.isOutside] at clear
  | sole sole =>
      rw [resolved] at symbol_eq clear
      obtain rfl : sole = symbol := Option.some.inj symbol_eq
      have once := Scoping.not_mem_repeated_of_resolve resolved
      rw [Script.scoping_of_read read] at binding_eq once
      have start_eq := Scoping.eq_of_symbolAt? binding_eq once
      obtain same | outside := clear
      · obtain rfl := Meaning.sole.inj same
        obtain ⟨start, placed, own_eq⟩ := exists_symbolAt? read known
        rw [Script.scoping_of_read read] at own_eq
        have own_start := Scoping.eq_of_symbolAt? own_eq once
        omega
      · have apart : binding.span.start < variable_.declarationStop ∨
            statement.span.start ≤ binding.span.start := by
          simpa [Meaning.isOutside, start_eq] using outside
        omega

end Read

/-- A class, a variable behind it, and a member whose value is read from a variable before it. -/
def readsBefore : String :=
  "var a=1;var C=(function(){function C(){}return C}());var b=2;C.p=a+C.q;"

/-- A class, a variable behind it, and a member whose value is read from the variable. -/
def readsBehind : String :=
  "var C=(function(){function C(){}return C}());var x=1;C.p=x;"

end StaticMember
end Shakedown
