import Shakedown.Proofs.Pass.StaticMember
import Shakedown.Proofs.Scope.Inserted
import Shakedown.Proofs.Script.Shape

/-!
# The program with its members folded

What folding makes of the statements of a program: each statement that belongs into a class is left
out, and stands in front of the last statement of the closure of its class. Reading the declaration
with members adds to the scopes around it what the members gain, but for the uses of names that the
closure declares in its own scope.
-/

namespace Shakedown
namespace StaticMember

open Node ScopeStack

/-! ## Members in a closure -/

/-- Statements with members in front of the last one. -/
def insertBeforeLast (members statements : List Node) : List Node :=
  statements.dropLast ++ (members ++ statements.getLast?.toList)

/-- The parts of a function with members in its body. -/
def insertInParts (members : List Node) : List Node → List Node
  | [] => []
  | .mk (.body directives) span statements :: rest =>
      .mk (.body directives) span (insertBeforeLast members statements) :: rest
  | part :: rest => part :: insertInParts members rest

/-- A function expression with members in its body. -/
def insertInFunction (members : List Node) : Node → Node
  | .mk (.function .expression isAsync isGenerator) span parts =>
      .mk (.function .expression isAsync isGenerator) span (insertInParts members parts)
  | node => node

/-- The call of a function, perhaps in parentheses, with members in the function. -/
def insertInCall (members : List Node) : Node → Node
  | .mk .parenthesized span [inner] => .mk .parenthesized span [insertInCall members inner]
  | .mk (.call isOptional) span (callee :: arguments) =>
      .mk (.call isOptional) span (insertInFunction members callee :: arguments)
  | node => node

/-- A function that is called at once, with members in the function. -/
def insertInClosure (members : List Node) : Node → Node
  | .mk .parenthesized span parts => insertInCall members (.mk .parenthesized span parts)
  | .mk (.call isOptional) span (.mk .parenthesized place [function] :: arguments) =>
      .mk (.call isOptional) span
        (.mk .parenthesized place [insertInFunction members function] :: arguments)
  | node => node

/-- The declaration of a class with members in its closure. -/
def insertInDeclaration (members : List Node) : Node → Node
  | .mk (.variables form) span [.mk .declarator place [name, value]] =>
      .mk (.variables form) span [.mk .declarator place [name, insertInClosure members value]]
  | node => node

/-- The parts of a function expression. -/
def functionParts? : Node → Option (List Node)
  | .mk (.function .expression _ _) _ parts => some parts
  | _ => none

/-- The parts of the function that a call calls. -/
def calleeParts? : Node → Option (List Node)
  | .mk (.call _) _ (callee :: _) => functionParts? callee
  | _ => none

/-- The parts of the function that is called at once. -/
def calledParts? : Node → Option (List Node)
  | .mk .parenthesized span parts =>
      calleeParts? (Node.mk .parenthesized span parts).withoutParentheses
  | .mk (.call _) _ (.mk .parenthesized _ [function] :: _) => functionParts? function
  | _ => none

/-- The parts of the closure that a declaration calls. -/
def closureParts? : Node → Option (List Node)
  | .mk (.variables _) _ [.mk .declarator _ [_, value]] => calledParts? value
  | _ => none

/-- The statements among the parts of a function. -/
def bodyOf? (parts : List Node) : Option (List Node) :=
  parts.findSome? fun
    | .mk (.body _) _ statements => some statements
    | _ => none

theorem functionBody?_eq (function : Node) :
    functionBody? function = (functionParts? function).bind bodyOf? := by
  obtain ⟨kind, span, parts⟩ := function
  cases kind <;> try rfl
  case function form isAsync isGenerator => cases form <;> rfl

theorem calledBody?_eq (value : Node) : calledBody? value = (calledParts? value).bind bodyOf? := by
  fun_cases calledBody? value <;>
    simp_all [calledParts?, calleeParts?, functionBody?_eq]

/-! ## The folded program -/

/-- The statements of a script that belong into a class. -/
def membersOf (script : Script) (variable_ : ClassVariable) : List Node :=
  script.program.body.filter fun statement =>
    (foldable? script.scoping (classes script) statement).any fun folded => folded.2 == variable_

/-- What folding makes of a statement. -/
def foldStatement (script : Script) (statement : Node) : Option Node :=
  if (foldable? script.scoping (classes script) statement).isSome then none
  else
    match classVariable? script.scoping statement with
    | none => some statement
    | some variable_ => some (insertInDeclaration (membersOf script variable_) statement)

/-- The statements of a script with all members in their classes. -/
def foldedBody (script : Script) : List Node :=
  script.program.body.filterMap (foldStatement script)

/-- The program of a script with all members in their classes. -/
def foldedProgram (script : Script) : Program :=
  { script.program with body := foldedBody script }

/-! ## Reading a closure with members -/

section Closure

variable {isStrict : Bool} {members : List Node}

theorem insertInParts_eq {parts statements : List Node} (found : bodyOf? parts = some statements)
    (members : List Node) :
    ∃ before directives span after,
      parts = before ++ .mk (.body directives) span statements :: after ∧
      insertInParts members parts =
        before ++ .mk (.body directives) span (insertBeforeLast members statements) :: after := by
  induction parts with
  | nil => contradiction
  | cons part rest ih =>
      obtain ⟨kind, span, children⟩ := part
      by_cases body : ∃ directives, kind = .body directives
      · obtain ⟨directives, rfl⟩ := body
        obtain rfl : children = statements := Option.some.inj found
        exact ⟨[], directives, span, rest, rfl, rfl⟩
      · have found_rest : bodyOf? rest = some statements := by
          unfold bodyOf? at found ⊢
          rw [List.findSome?_cons] at found
          cases kind <;> simp_all
        obtain ⟨before, directives, place, after, rfl, inserted⟩ := ih found_rest
        refine ⟨.mk kind span children :: before, directives, place, after, rfl, ?_⟩
        rw [insertInParts, inserted]
        · rfl
        · intro _ _ _ same
          exact body ⟨_, (Node.mk.inj same).1⟩

theorem dropLast_append_getLast? (statements : List Node) :
    statements.dropLast ++ statements.getLast?.toList = statements := by
  cases statements with
  | nil => rfl
  | cons first rest =>
      rw [List.getLast?_eq_some_getLast (List.cons_ne_nil _ _)]
      exact List.dropLast_concat_getLast (List.cons_ne_nil _ _)

/-- Nothing stands behind the body of a function. -/
theorem nil_of_body {before after statements : List Node} {form : FunctionForm}
    {isAsync isGenerator : Bool} {directives : List String} {span place : Span}
    (shaped : (Node.mk (.function form isAsync isGenerator) span
      (before ++ .mk (.body directives) place statements :: after)).IsShaped) : after = [] := by
  cases after with
  | nil => rfl
  | cons next rest =>
      have early : Node.mk (.body directives) place statements ∈
          (before ++ .mk (.body directives) place statements :: next :: rest).dropLast := by
        rw [List.dropLast_append_of_ne_nil (List.cons_ne_nil _ _)]
        simp
      have body := shaped.formed.body rfl _ early
      contradiction

variable (permits : ∀ member ∈ members, member.Permits false false)

include permits

theorem differs_body {isBranch : Bool} {directives : List String} {span : Span}
    {statements : List Node} (shaped : (Node.mk (.body directives) span statements).IsShaped) :
    Differs isStrict [] (gainsOf isStrict members)
      (readNode isBranch (.mk (.body directives) span statements))
      (readNode isBranch (.mk (.body directives) span (insertBeforeLast members statements))) := by
  have statements_permit : ∀ statement ∈ statements, statement.Permits true false :=
    fun statement listed => (shaped.child listed).permits_of_isPart
      (shaped.formed.parts rfl statement listed)
  have inserted : Differs isStrict [] (gainsOf isStrict members) id (readNodes members) :=
    differs_insert permits
  have around := inserted.around
    statements.dropLast statements.getLast?.toList
    (fun statement listed => statements_permit statement (statements.dropLast_sublist.mem listed))
    (fun statement listed => statements_permit statement
      (List.mem_of_getLast? (Option.mem_toList.1 listed)))
  have read_eq : readNode isBranch (.mk (.body directives) span statements) = fun stack =>
      readNodes statements.getLast?.toList (id (readNodes statements.dropLast stack)) := by
    funext stack
    simp only [readNode, id_eq]
    rw [← readNodes_append, dropLast_append_getLast?]
  have change_eq : readNode isBranch
      (.mk (.body directives) span (insertBeforeLast members statements)) = fun stack =>
        readNodes statements.getLast?.toList
          (readNodes members (readNodes statements.dropLast stack)) := by
    funext stack
    simp only [readNode, insertBeforeLast, readNodes_append]
  rwa [read_eq, change_eq]

variable {parts statements : List Node} (found : bodyOf? parts = some statements)
  (gain_eq : gainsOf (isStrict || hasStrictBody parts) members = gainsOf isStrict members)

include found gain_eq

/-- Members in a function gain there what they gain behind it, but for the names that the function
declares. -/
theorem differs_insertInFunction {function : Node} (called : functionParts? function = some parts)
    (shaped : function.IsShaped) {isBranch : Bool} :
    Differs isStrict (ownScope isStrict parts) (gainsOf isStrict members)
      (readNode isBranch function) (readNode isBranch (insertInFunction members function)) := by
  unfold functionParts? at called
  split at called
  · rename_i isAsync isGenerator span own_parts
    obtain rfl := Option.some.inj called
    obtain ⟨before, directives, place, after, rfl, inserted⟩ := insertInParts_eq found members
    rw [insertInFunction, inserted]
    have body_shaped := shaped.child (List.mem_append_right before List.mem_cons_self)
    obtain rfl : after = [] := nil_of_body shaped
    exact differs_function (gain_eq ▸ differs_body permits body_shaped) rfl (by simp)
      (by simp [ownNames]) (by simp [hasStrictBody])
  · contradiction

omit permits found gain_eq in
theorem differs_parenthesized {declared : List (String × Symbol)} {added : Gain}
    {node change : Node}
    (differs : Differs isStrict declared added (readNode false node) (readNode false change))
    {isBranch : Bool} {span : Span} :
    Differs isStrict declared added (readNode isBranch (.mk .parenthesized span [node]))
      (readNode isBranch (.mk .parenthesized span [change])) := by
  have read_eq : ∀ node, readNode isBranch (.mk .parenthesized span [node]) =
      readNode false node := by
    intro node
    funext stack
    simp [readNode, readNodes]
  rwa [read_eq, read_eq]

omit permits found gain_eq in
theorem differs_call {declared : List (String × Symbol)} {added : Gain} {callee change : Node}
    (differs : Differs isStrict declared added (readNode false callee) (readNode false change))
    {isBranch isOptional : Bool} {span : Span} {arguments : List Node}
    (shaped : (Node.mk (.call isOptional) span (callee :: arguments)).IsShaped) :
    Differs isStrict declared added
      (readNode isBranch (.mk (.call isOptional) span (callee :: arguments)))
      (readNode isBranch (.mk (.call isOptional) span (change :: arguments))) := by
  have read_eq : ∀ children, readNode isBranch (.mk (.call isOptional) span children) =
      readNodes children := by
    intro children
    funext stack
    simp [readNode]
  rw [read_eq, read_eq]
  exact differs.row [] arguments (by simp) fun argument listed =>
    (shaped.child (List.mem_cons_of_mem _ listed)).permits_of_isPart
      (shaped.formed.parts rfl argument (List.mem_cons_of_mem _ listed))

theorem differs_insertInCall {call : Node}
    (called : calleeParts? call.withoutParentheses = some parts)
    (shaped : call.IsShaped) {isBranch : Bool} :
    Differs isStrict (ownScope isStrict parts) (gainsOf isStrict members)
      (readNode isBranch call) (readNode isBranch (insertInCall members call)) := by
  induction call using Node.induction generalizing isBranch with
  | step kind span children ih =>
      unfold withoutParentheses at called
      split at called
      case h_1 place inner same =>
        obtain ⟨rfl, rfl, rfl⟩ := Node.mk.inj same
        rw [insertInCall]
        exact differs_parenthesized
          (ih inner List.mem_cons_self called (shaped.child List.mem_cons_self))
      case h_2 unparenthesized =>
        unfold calleeParts? at called
        split at called
        · rename_i isOptional place callee arguments same
          obtain ⟨rfl, rfl, rfl⟩ := Node.mk.inj same
          rw [insertInCall]
          exact differs_call (differs_insertInFunction permits found gain_eq called
            (shaped.child List.mem_cons_self)) shaped
        · contradiction

theorem differs_insertInClosure {value : Node} (called : calledParts? value = some parts)
    (shaped : value.IsShaped) {isBranch : Bool} :
    Differs isStrict (ownScope isStrict parts) (gainsOf isStrict members)
      (readNode isBranch value) (readNode isBranch (insertInClosure members value)) := by
  unfold calledParts? at called
  split at called
  · rw [insertInClosure]
    exact differs_insertInCall permits found gain_eq called shaped
  · rw [insertInClosure]
    exact differs_call (differs_parenthesized (differs_insertInFunction permits found gain_eq called
      ((shaped.child List.mem_cons_self).child List.mem_cons_self))) shaped
  · contradiction

theorem differs_insertInDeclaration {declaration : Node}
    (called : closureParts? declaration = some parts) (shaped : declaration.IsShaped)
    {isBranch : Bool} :
    Differs isStrict (ownScope isStrict parts) (gainsOf isStrict members)
      (readNode isBranch declaration)
      (readNode isBranch (insertInDeclaration members declaration)) := by
  unfold closureParts? at called
  split at called
  · rename_i form span place name value
    have declarator_shaped := shaped.child List.mem_cons_self
    have value_differs : Differs isStrict (ownScope isStrict parts) (gainsOf isStrict members)
        (readNode false value) (readNode false (insertInClosure members value)) :=
      differs_insertInClosure permits found gain_eq called
        (declarator_shaped.child (List.mem_cons_of_mem _ List.mem_cons_self))
    have row := value_differs.row [name] [] (fun node listed => by
        obtain rfl := List.mem_singleton.1 listed
        exact (declarator_shaped.child List.mem_cons_self).permits_of_isPart
          (declarator_shaped.formed.parts rfl _ List.mem_cons_self)) (by simp)
    have read_eq : ∀ value, readNode isBranch
        (.mk (.variables form) span [.mk .declarator place [name, value]]) = fun stack =>
          readNodes ([name] ++ [value])
            (stack.declareForm form (bindingsOfList (declaredPatterns
              [.mk .declarator place [name, value]]))) := by
      intro value
      funext stack
      simp [readNode, readDeclarators]
    have bindings_eq : ∀ value, bindingsOfList (declaredPatterns
        [.mk .declarator place [name, value]]) = bindingsOfList [name] := by
      intro value
      rfl
    rw [insertInDeclaration, read_eq, read_eq, bindings_eq, bindings_eq]
    constructor
    · exact fun inside => row.adds (inside.declareForm _ _)
    · exact fun inside => row.captures (inside.declareForm _ _)
  · contradiction

end Closure

end StaticMember
end Shakedown
