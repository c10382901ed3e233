import Shakedown.Proofs.Pass.MemberMeaning
import Shakedown.Proofs.Pass.Recognition
import Shakedown.Proofs.Scope.Named
import Shakedown.Proofs.Scope.Retained

/-!
# What a class is made of

A variable counts as a class when its value is a function expression that is called at once and whose
body declares a function of the same name first and ends with a `return`. What the `return` returns
is not looked at. When it is that name, it means the function, and so does the object of every
member that is moved in front of it.
-/

namespace Shakedown
namespace StaticMember

open Node ScopeStack Span

/-- The node calls the function, perhaps in parentheses. -/
inductive Calls (function : Node) : Node → Prop
  /-- The call itself. -/
  | call {isOptional : Bool} {span : Span} {inputs : List Node} :
      Calls function (.mk (.call isOptional) span (function :: inputs))
  /-- A call in parentheses. -/
  | parenthesized {span : Span} {inner : Node} : Calls function inner →
      Calls function (.mk .parenthesized span [inner])

/-- The node is a function that is called at once, with the parentheses around the call or around
the function. -/
inductive Invokes (function : Node) : Node → Prop
  /-- `(function () { … }())` -/
  | around {span : Span} {inner : Node} : Calls function inner →
      Invokes function (.mk .parenthesized span [inner])
  /-- `(function () { … })()` -/
  | within {isOptional : Bool} {span place : Span} {inputs : List Node} :
      Invokes function (.mk (.call isOptional) span (.mk .parenthesized place [function] :: inputs))

/-- A function expression whose body ends with a `return`. -/
structure ClassClosure where
  /-- Whether the function is asynchronous. -/
  isAsync : Bool
  /-- Whether the function is a generator. -/
  isGenerator : Bool
  /-- The range of the function. -/
  span : Span
  /-- What stands before the body. -/
  early : List Node
  /-- The directives of the body. -/
  directives : List String
  /-- The range of the body. -/
  bodySpan : Span
  /-- The first statement. -/
  first : Node
  /-- The statements between the first and the last one. -/
  middle : List Node
  /-- The range of the `return`. -/
  returnSpan : Span
  /-- What is returned, if anything. -/
  returned : List Node

namespace ClassClosure

/-- The statements of the closure. -/
def statements (closure : ClassClosure) : List Node :=
  closure.first :: (closure.middle ++ [.mk .returnStatement closure.returnSpan closure.returned])

/-- The parts of the closure. -/
def parts (closure : ClassClosure) : List Node :=
  closure.early ++ [.mk (.body closure.directives) closure.bodySpan closure.statements]

/-- The closure as a tree. -/
def function (closure : ClassClosure) : Node :=
  .mk (.function .expression closure.isAsync closure.isGenerator) closure.span closure.parts

end ClassClosure

/-- The name that the closure of a declaration returns last, if it returns a name. -/
def returnedName? (declaration : Node) : Option NameUse :=
  match ((closureParts? declaration).bind bodyOf?).bind List.getLast? with
  | some (.mk .returnStatement _ [.mk (.reference name) place _]) => some ⟨place.start, name⟩
  | _ => none

/-- The statement declares a function by the name that takes up the range. -/
def DeclaresFunction (name : String) (nameSpan : Span) (statement : Node) : Prop :=
  ∃ isAsync isGenerator span others, statement =
    .mk (.function .declaration isAsync isGenerator) span (.mk (.binding name) nameSpan [] :: others)

/-- The statement declares a variable, and nothing else, whose value is a closure that is called at
once, declares a function of the same name first and returns last. -/
structure IsClass (script : Script) (variable_ : ClassVariable) (declaration : Node)
    (closure : ClassClosure) (constructorName : Span) : Prop where
  /-- The statement stands at the top level. -/
  listed : declaration ∈ script.program.body
  /-- The variable has a value that is called at once. -/
  declares : ∃ form span place nameSpan value, declaration =
      .mk (.variables form) span
        [.mk .declarator place [.mk (.binding variable_.name) nameSpan [], value]] ∧
    span.stop = variable_.declarationStop ∧
    script.scoping.symbolAt? nameSpan.start = some variable_.symbol ∧
    Invokes closure.function value
  /-- The first statement of the closure declares the constructor. -/
  first : DeclaresFunction variable_.name constructorName closure.first
  /-- The last one is the `return` in front of which members go. -/
  returns : closure.returnSpan = variable_.returnSpan

variable {script again : Script} {variable_ : ClassVariable} {declaration : Node}
  {closure : ClassClosure} {constructorName : Span} {function value : Node} {name : String}

/-! ## Which statements declare classes -/

theorem calls_of_withoutParentheses {call callee : Node} {isOptional : Bool} {span : Span}
    {inputs : List Node}
    (same : call.withoutParentheses = .mk (.call isOptional) span (callee :: inputs)) :
    Calls callee call := by
  induction call using Node.induction with
  | step kind place children ih =>
      unfold withoutParentheses at same
      split at same
      · rename_i inner node_eq
        obtain ⟨rfl, rfl, rfl⟩ := Node.mk.inj node_eq
        exact .parenthesized (ih inner List.mem_cons_self same)
      · rw [same]
        exact .call

theorem functionParts?_eq_some {parts : List Node} (found : functionParts? function = some parts) :
    ∃ isAsync isGenerator span,
      function = .mk (.function .expression isAsync isGenerator) span parts := by
  unfold functionParts? at found
  split at found
  · obtain rfl := Option.some.inj found
    exact ⟨_, _, _, rfl⟩
  · contradiction

theorem invokes_of_calledParts? {parts : List Node} (found : calledParts? value = some parts) :
    ∃ isAsync isGenerator span,
      Invokes (.mk (.function .expression isAsync isGenerator) span parts) value := by
  unfold calledParts? at found
  split at found
  · rename_i span children
    unfold calleeParts? at found
    split at found
    · rename_i callee _ call_eq
      obtain ⟨isAsync, isGenerator, place, rfl⟩ := functionParts?_eq_some found
      cases calls_of_withoutParentheses call_eq with
      | parenthesized inside => exact ⟨isAsync, isGenerator, place, .around inside⟩
    · contradiction
  · obtain ⟨isAsync, isGenerator, place, rfl⟩ := functionParts?_eq_some found
    exact ⟨isAsync, isGenerator, place, .within⟩
  · contradiction

theorem statements_of_classReturn? {statements : List Node} {span : Span}
    (found : classReturn? name statements = some span) : ∃ first middle returned,
      statements = first :: (middle ++ [.mk .returnStatement span returned]) ∧
        declaresFunction name first := by
  unfold classReturn? at found
  split at found
  · rename_i first second rest
    split at found
    · rename_i declares
      split at found
      · rename_i returnSpan returned last_eq
        obtain rfl := Option.some.inj found
        obtain ⟨middle, rest_eq⟩ := List.getLast?_eq_some_iff.1 last_eq
        exact ⟨first, middle, returned, by rw [rest_eq], declares⟩
      · contradiction
    · contradiction
  · contradiction

theorem declaresFunction_iff {statement : Node} (shaped : statement.IsShaped)
    (declares : declaresFunction name statement) :
    ∃ nameSpan, DeclaresFunction name nameSpan statement := by
  unfold declaresFunction at declares
  split at declares
  · rename_i isAsync isGenerator span declared nameSpan children others
    obtain rfl := beq_iff_eq.1 declares
    obtain rfl : children = [] := (shaped.child List.mem_cons_self).formed.name rfl
    exact ⟨nameSpan, isAsync, isGenerator, span, others, rfl⟩
  · contradiction

theorem isBelow_of_calls {call : Node} (calls : Calls function call) : function.IsBelow call := by
  induction calls with
  | call => exact .child rfl List.mem_cons_self .here
  | parenthesized _ ih => exact .child rfl List.mem_cons_self ih

theorem isBelow_of_invokes (invokes : Invokes function value) : function.IsBelow value := by
  cases invokes with
  | around calls => exact .child rfl List.mem_cons_self (isBelow_of_calls calls)
  | within => exact .child rfl List.mem_cons_self (.child rfl List.mem_cons_self .here)

/-- Every class of a script that is read has the shape. -/
theorem exists_isClass {text file : String} (read : Script.read text file = .ok script)
    (found : variable_ ∈ classes script) : ∃ declaration closure constructorName,
      IsClass script variable_ declaration closure constructorName ∧
        classVariable? script.scoping declaration = some variable_ ∧
        closureParts? declaration = some closure.parts ∧
        bodyOf? closure.parts = some closure.statements := by
  obtain ⟨declaration, listed, class_⟩ := List.mem_filterMap.1 found
  have shaped := (Script.isPlain_of_read read declaration listed).1
  have class_eq := class_
  unfold classVariable? at class_
  split at class_
  · rename_i form span place name nameSpan children value
    simp only [Option.bind_eq_bind, Option.bind_eq_some_iff] at class_
    obtain ⟨symbol, symbol_eq, statements, called, returnSpan, returns, built⟩ := class_
    obtain rfl := Option.some.inj built
    have declarator_shaped := shaped.child List.mem_cons_self
    obtain rfl : children = [] := (declarator_shaped.child List.mem_cons_self).formed.name rfl
    rw [calledBody?_eq, Option.bind_eq_some_iff] at called
    obtain ⟨parts, called, body⟩ := called
    obtain ⟨isAsync, isGenerator, functionSpan, invokes⟩ := invokes_of_calledParts? called
    obtain ⟨early, directives, bodySpan, after, rfl, -⟩ := insertInParts_eq body []
    have value_shaped := declarator_shaped.child (List.mem_cons_of_mem _ List.mem_cons_self)
    have function_shaped : IsShaped _ := fun inner below =>
      value_shaped inner (mem_nodes_trans below (isBelow_of_invokes invokes).mem_nodes)
    obtain rfl := nil_of_body function_shaped
    obtain ⟨first, middle, returned, rfl, declares⟩ := statements_of_classReturn? returns
    have first_shaped : first.IsShaped :=
      (function_shaped.child (List.mem_append_right _ List.mem_cons_self)).child List.mem_cons_self
    obtain ⟨constructorName, first_declares⟩ := declaresFunction_iff first_shaped declares
    let closure : ClassClosure :=
      { isAsync, isGenerator, span := functionSpan, early, directives, bodySpan, first, middle,
        returnSpan, returned }
    exact ⟨_, closure, constructorName, ⟨listed, ⟨form, span, place, nameSpan, value, rfl, rfl,
      symbol_eq, invokes⟩, first_declares, rfl⟩, class_eq, called, body⟩
  · contradiction

theorem returned_of_returnedName? {use : NameUse}
    (closure_eq : closureParts? declaration = some closure.parts)
    (body_eq : bodyOf? closure.parts = some closure.statements)
    (returned : returnedName? declaration = some use) : ∃ place nameParts,
      closure.returned = [.mk (.reference use.name) place nameParts] ∧ place.start = use.offset := by
  have last_eq : closure.statements.getLast? =
      some (.mk .returnStatement closure.returnSpan closure.returned) := by
    rw [ClassClosure.statements, ← List.cons_append, List.getLast?_append_of_ne_nil _ (by simp)]
    rfl
  unfold returnedName? at returned
  rw [closure_eq, Option.bind_some, body_eq, Option.bind_some, last_eq] at returned
  split at returned
  · rename_i same
    obtain rfl := Option.some.inj returned
    obtain ⟨-, -, returned_eq⟩ := Node.mk.inj (Option.some.inj same)
    exact ⟨_, _, returned_eq, rfl⟩
  · contradiction

/-! ## What the closure declares -/

section Reading

variable {text : List Char} {isStrict : Bool} {stack : ScopeStack}

/-- Reading a call reads the function first. -/
theorem readNode_of_calls {call : Node} (calls : Calls function call) : ∃ inputs,
    (∀ isBranch stack, readNode isBranch call stack =
      readNodes inputs (readNode false function stack)) ∧
    (call.IsSpaced text → ∀ place < function.span.stop, AllBehind text place inputs) := by
  induction calls with
  | @call isOptional span inputs =>
      refine ⟨inputs, fun isBranch stack => by simp [readNode, readNodes], ?_⟩
      intro spaced place before input listed
      have row := spaced.inRow (by simp [NodeKind.arrangement])
      have behind := (List.pairwise_cons.1 row.ordered).1 input listed
      exact ⟨spaced.child (List.mem_cons_of_mem _ listed), Nat.lt_of_lt_of_le before behind⟩
  | parenthesized _ ih =>
      obtain ⟨inputs, read_eq, behind⟩ := ih
      refine ⟨inputs, fun isBranch stack => ?_, fun spaced => behind (spaced.child List.mem_cons_self)⟩
      rw [← read_eq false stack]
      simp [readNode, readNodes]

theorem readNode_of_invokes (invokes : Invokes function value) : ∃ inputs,
    (∀ isBranch stack, readNode isBranch value stack =
      readNodes inputs (readNode false function stack)) ∧
    (value.IsSpaced text → ∀ place < function.span.stop, AllBehind text place inputs) := by
  cases invokes with
  | around calls => exact readNode_of_calls (.parenthesized calls)
  | @within isOptional span place inputs =>
      refine ⟨inputs, fun isBranch stack => by simp [readNode, readNodes], ?_⟩
      intro spaced offset before input listed
      have row := spaced.inRow (by simp [NodeKind.arrangement])
      have behind := (List.pairwise_cons.1 row.ordered).1 input listed
      have inside := Span.covers_iff.1
        ((spaced.child List.mem_cons_self).fits.within function List.mem_cons_self)
      exact ⟨spaced.child (List.mem_cons_of_mem _ listed), by
        have : (Node.mk .parenthesized place [function]).span.stop ≤ input.span.start := behind
        omega⟩

namespace ClassClosure

theorem body_spaced (spaced : closure.function.IsSpaced text) :
    (Node.mk (.body closure.directives) closure.bodySpan closure.statements).IsSpaced text :=
  spaced.child (List.mem_append_right _ List.mem_cons_self)

/-- The name of the function that is declared first stands in front of all other statements, and in
the closure. -/
theorem behind_first (spaced : closure.function.IsSpaced text)
    (declares : DeclaresFunction name constructorName closure.first) :
    constructorName.start < closure.span.stop ∧ AllBehind text constructorName.start
      (closure.middle ++ [.mk .returnStatement closure.returnSpan closure.returned]) := by
  obtain ⟨isAsync, isGenerator, span, others, first_eq⟩ := declares
  have body_spaced := closure.body_spaced spaced
  have row := body_spaced.inRow (by simp [NodeKind.arrangement])
  have in_first : Node.mk (.binding name) constructorName [] ∈ closure.first.nodes := by
    rw [first_eq]
    exact mem_nodes.2 (.inr ⟨_, List.mem_cons_self, mem_nodes.2 (.inl rfl)⟩)
  have first_spaced : closure.first.IsSpaced text := body_spaced.child List.mem_cons_self
  have proper : constructorName.start < constructorName.stop := (first_spaced.below in_first).proper
  have in_statement : closure.first.span.covers constructorName := first_spaced.covers in_first
  have in_function : closure.span.covers constructorName :=
    covers_trans (spaced.fits.within _ (List.mem_append_right closure.early List.mem_cons_self))
      (covers_trans (body_spaced.fits.within closure.first List.mem_cons_self) in_statement)
  rw [covers_iff] at in_statement in_function
  refine ⟨by omega, fun statement listed => ⟨row.spaced statement (List.mem_cons_of_mem _ listed), ?_⟩⟩
  have behind := (List.pairwise_cons.1 row.ordered).1 statement listed
  omega

/-- Members go into the closure. -/
theorem surrounds_return (spaced : closure.function.IsSpaced text) :
    closure.span.surrounds closure.returnSpan.start := by
  have body_spaced := closure.body_spaced spaced
  have row := body_spaced.inRow (by simp [NodeKind.arrangement])
  have body_covers := covers_iff.1
    (spaced.fits.within _ (List.mem_append_right closure.early List.mem_cons_self))
  have listed : Node.mk .returnStatement closure.returnSpan closure.returned ∈
      closure.middle ++ [.mk .returnStatement closure.returnSpan closure.returned] :=
    List.mem_append_right _ List.mem_cons_self
  have behind : closure.first.span.stop ≤ closure.returnSpan.start :=
    (List.pairwise_cons.1 row.ordered).1 _ listed
  have first_within := row.within closure.first List.mem_cons_self
  have first_proper := (row.spaced closure.first List.mem_cons_self).proper
  have return_within : closure.returnSpan.stop ≤ closure.bodySpan.stop :=
    (row.within _ (List.mem_cons_of_mem _ listed)).2
  have return_proper : closure.returnSpan.start < closure.returnSpan.stop :=
    (row.spaced _ (List.mem_cons_of_mem _ listed)).proper
  have body_covers : closure.span.start ≤ closure.bodySpan.start ∧
      closure.bodySpan.stop ≤ closure.span.stop := body_covers
  rw [surrounds_iff]
  omega

/-- The statements of the body are read behind the other parts. -/
theorem readNodes_parts (base : ScopeStack) : readNodes closure.parts base =
    readNodes (closure.early ++ closure.statements) base := by
  rw [parts, readNodes_append, readNodes_append]
  simp only [readNodes, readNode]

theorem readNode_function {outer : List Frame} (inside : InFunction isStrict outer stack)
    (isBranch : Bool) : readNode isBranch closure.function stack =
      (readNodes closure.parts (atParts isStrict closure.parts stack)).leave :=
  readNode_function_expression inside isBranch ..

/-- A name that is returned means what the closure declares. -/
theorem settles_returned {outer : List Frame} (inside : InFunction isStrict outer stack)
    {symbol : Symbol} (own : (ownScope isStrict closure.parts).lookup name = some symbol)
    {place : Span} {nameParts : List Node}
    (returned_eq : closure.returned = [.mk (.reference name) place nameParts]) :
    (place.start, symbol) ∈ (readNode false closure.function stack).settled := by
  have statements_eq : closure.early ++ closure.statements =
      (closure.early ++ closure.first :: closure.middle) ++ [.mk .returnStatement closure.returnSpan
        [.mk (.reference name) place nameParts]] := by
    rw [statements, returned_eq, List.append_assoc, List.cons_append]
  obtain ⟨around, -, -, frame, -, -, frames_eq⟩ :=
    exists_around inside closure.parts (closure.early ++ closure.first :: closure.middle)
  have waits : (⟨place.start, name⟩ : NameUse) ∈
      (readNodes closure.parts (atParts isStrict closure.parts stack)).top.pending := by
    rw [readNodes_parts, statements_eq, readNodes_append]
    simp [readNodes, readNode, ScopeStack.use, changeTop, top, frames_eq]
  rw [← top_readNodes_parts inside] at own
  rw [readNode_function inside]
  exact mem_settled_leave waits own

end ClassClosure

/-- The closure lies in the declaration. -/
theorem IsClass.isBelow (isClass : IsClass script variable_ declaration closure constructorName) :
    closure.function.IsBelow declaration := by
  obtain ⟨form, span, declaratorSpan, nameSpan, value, rfl, -, -, invokes⟩ := isClass.declares
  exact .child rfl List.mem_cons_self
    (.child rfl (List.mem_cons_of_mem _ List.mem_cons_self) (isBelow_of_invokes invokes))

/-- The name of the constructor stands in the declaration. -/
theorem IsClass.before_stop
    (isClass : IsClass script variable_ declaration closure constructorName)
    (spaced : declaration.IsSpaced text) : constructorName.start < declaration.span.stop := by
  have below := isClass.isBelow.mem_nodes
  have before_stop := (closure.behind_first (spaced.below below) isClass.first).1
  have covered : declaration.span.covers closure.span := spaced.covers below
  rw [covers_iff] at covered
  omega

variable (inside : InFunction isStrict [] stack) (isClass : IsClass script variable_ declaration closure
  constructorName) (spaced : declaration.IsSpaced text)

include inside isClass spaced

/-- The closure declares its name in its own scope, by the symbol of the function that it declares
first, and a use of the name that is returned means that symbol. -/
theorem reads_declaration : ∃ symbol,
    (ownScope isStrict closure.parts).lookup variable_.name = some symbol ∧
    (readNode false declaration stack).declarations.lookup constructorName.start = some symbol ∧
    ∀ place nameParts, closure.returned = [.mk (.reference variable_.name) place nameParts] →
      (place.start, symbol) ∈ (readNode false declaration stack).settled := by
  obtain ⟨form, span, declaratorSpan, nameSpan, value, rfl, -, -, invokes⟩ := isClass.declares
  have value_spaced : value.IsSpaced text :=
    (spaced.child List.mem_cons_self).child (List.mem_cons_of_mem _ List.mem_cons_self)
  have function_spaced := value_spaced.below (isBelow_of_invokes invokes).mem_nodes
  obtain ⟨before_stop, behind⟩ := closure.behind_first function_spaced isClass.first
  obtain ⟨inputs, value_eq, inputs_behind⟩ := @readNode_of_invokes _ _ text invokes
  obtain ⟨isAsync, isGenerator, firstSpan, others, first_eq⟩ := isClass.first
  have declared := inside.declareForm form [.mk (.binding variable_.name) nameSpan []]
  have read_eq : readNode false (.mk (.variables form) span
      [.mk .declarator declaratorSpan [.mk (.binding variable_.name) nameSpan [], value]]) stack =
        readNodes inputs (readNode false closure.function
          (stack.declareForm form [.mk (.binding variable_.name) nameSpan []])) := by
    rw [← value_eq false]
    simp [readNode, readDeclarators, readNodes, declaredPatterns, bindingsOfList, bindings]
  rw [read_eq]
  generalize stack.declareForm form [.mk (.binding variable_.name) nameSpan []] = around at declared
  have first_spaced : closure.first.IsSpaced text :=
    (closure.body_spaced function_spaced).child List.mem_cons_self
  rw [first_eq] at first_spaced
  have parts_eq : closure.parts = closure.early ++ [.mk (.body closure.directives) closure.bodySpan
      (.mk (.function .declaration isAsync isGenerator) firstSpan
        (.mk (.binding variable_.name) constructorName [] :: others) ::
          (closure.middle ++ [.mk .returnStatement closure.returnSpan closure.returned]))] := by
    rw [ClassClosure.parts, ClassClosure.statements, first_eq]
  obtain ⟨symbol, own, noted⟩ := knows_first declared first_spaced behind parts_eq
  refine ⟨symbol, own, ?_, fun place nameParts returned_eq => ?_⟩
  · refine lookup_declarations_readNodes (inputs_behind value_spaced _ before_stop) ?_
    rwa [closure.readNode_function declared, leave, declarations_settle]
  · exact (invariant_mem_settled (place.start, symbol)).readNodes inputs
      (closure.settles_returned declared own returned_eq)

end Reading

/-! ## What names mean in the program -/

section Program

variable {text file : String} (read : Script.read text file = .ok script)
  (isClass : IsClass script variable_ declaration closure constructorName)

include read isClass

/-- In the whole program the constructor has the symbol by which the closure knows it, and so has its
name where it is returned. -/
theorem exists_symbol : ∃ symbol,
    (ownScope script.program.isStrict closure.parts).lookup variable_.name = some symbol ∧
    script.scoping.symbolAt? constructorName.start = some symbol ∧
    ∀ place nameParts, closure.returned = [.mk (.reference variable_.name) place nameParts] →
      (script.scoping.resolve place.start).symbol? = some symbol := by
  have row := (Script.isSpaced_of_read read).row
  have plain := Script.isPlain_of_read read
  have permits : ∀ statement ∈ script.program.body, statement.Permits true false :=
    fun statement listed => (plain statement listed).1.permits_of_isPart (plain statement listed).2
  obtain ⟨before, after, body_eq⟩ := List.append_of_mem isClass.listed
  have inside : InFunction script.program.isStrict []
      (readNodes before (blank script.program.isStrict)) := by
    have start : InFunction script.program.isStrict [] (blank script.program.isStrict) :=
      ⟨_, rfl, rfl, rfl⟩
    refine start.readNodes fun statement listed => permits statement ?_
    rw [body_eq]
    exact List.mem_append_left _ listed
  have spaced := row.spaced declaration isClass.listed
  obtain ⟨symbol, own, noted, meant⟩ := reads_declaration inside isClass spaced
  have ofProgram_eq : ScopeStack.ofProgram script.program = (readNodes after (readNode false
      declaration (readNodes before (blank script.program.isStrict)))).settle := by
    rw [ScopeStack.ofProgram, body_eq, readNodes_append]
    rfl
  have scoping_eq := Script.scoping_of_read read
  refine ⟨symbol, own, ?_, fun place nameParts returned_eq => ?_⟩
  · have before_stop := isClass.before_stop spaced
    have behind : AllBehind script.text.toList constructorName.start after := by
      intro node listed
      have ordered := row.ordered
      rw [body_eq] at ordered
      have later := (List.pairwise_cons.1 (List.pairwise_append.1 ordered).2.1).1 node listed
      have in_body : node ∈ script.program.body := by simp [body_eq, listed]
      exact ⟨row.spaced node in_body, Nat.lt_of_lt_of_le before_stop later⟩
    rw [scoping_eq]
    show (ScopeStack.ofProgram script.program).declarations.lookup _ = _
    rw [ofProgram_eq, declarations_settle]
    exact lookup_declarations_readNodes behind noted
  · have settled := (suffix_settle _).mem ((invariant_mem_settled (place.start, symbol)).readNodes
      after (meant place nameParts returned_eq))
    rw [← ofProgram_eq] at settled
    rw [Scoping.symbol?_resolve, scoping_eq]
    exact (lookup_eq_some_iff_mem (nodup_settled
      (row.nodup_references fun node listed => (plain node listed).1))).2 settled

/-! ## What names mean in the folded program -/

omit read isClass in
theorem mem_references_of_calls {call : Node} {use : NameUse} (calls : Calls function call)
    (used : use ∈ function.references) : use ∈ call.references := by
  induction calls with
  | call => exact List.mem_append_left _ used
  | parenthesized _ ih => exact List.mem_append_left _ ih

omit read isClass in
theorem mem_references_of_invokes {use : NameUse} (invokes : Invokes function value)
    (used : use ∈ function.references) : use ∈ value.references := by
  cases invokes with
  | around calls => exact List.mem_append_left _ (mem_references_of_calls calls used)
  | within => exact List.mem_append_left _ (List.mem_append_left _ used)

omit read in
/-- The name that is returned is a reference in the declaration. -/
theorem mem_references_returned {place : Span} {nameParts : List Node}
    (returned_eq : closure.returned = [.mk (.reference name) place nameParts]) :
    (⟨place.start, name⟩ : NameUse) ∈ declaration.references := by
  obtain ⟨form, span, declaratorSpan, nameSpan, value, rfl, -, -, invokes⟩ := isClass.declares
  have in_function : (⟨place.start, name⟩ : NameUse) ∈ closure.function.references := by
    refine mem_referencesOfList.2 ⟨.mk (.body closure.directives) closure.bodySpan closure.statements,
      List.mem_append_right _ List.mem_cons_self, ?_⟩
    refine mem_referencesOfList.2 ⟨.mk .returnStatement closure.returnSpan closure.returned, ?_, ?_⟩
    · exact List.mem_cons_of_mem _ (List.mem_append_right _ List.mem_cons_self)
    · rw [returned_eq]
      exact List.mem_cons_self
  have in_value := mem_references_of_invokes invokes in_function
  simp [references, referencesOfList, in_value]

variable {statement : Node} {assignment : Metadata.PropertyAssignment}

omit read isClass in
/-- The object of a member is read in the scope around the member. -/
theorem waits_object (orderly : IsOrderly script) (listed : statement ∈ script.program.body)
    (foldable : foldable? script.scoping (classes script) statement = some (assignment, variable_)) :
    (⟨assignment.object.span.start, assignment.name⟩ : NameUse) ∈
      (gainOf script.program.isStrict statement).pending := by
  have permits := permits_member orderly listed foldable
  obtain ⟨assigned, -⟩ := foldable?_eq_some foldable
  unfold Metadata.assignment? at assigned
  split at assigned
  · obtain rfl := Option.some.inj assigned
    rename_i span assignmentSpan property isOptional memberSpan name nameSpan parts value
    have value_permits := (permits.child rfl List.mem_cons_self).child rfl
      (List.mem_cons_of_mem _ List.mem_cons_self)
    simp only [gainOf, readNode, readNodes]
    rw [readNode_eq_grow value_permits (by simp [ScopeStack.use, blank, changeTop])]
    simp only [ScopeStack.use, blank, changeTop, grow, top, hand, List.nil_append,
      List.modifyHead_cons, List.headD_cons, List.mem_append, List.mem_cons]
    exact .inr (.inl rfl)
  · contradiction

omit read isClass in
theorem mem_references_object (assigned : Metadata.assignment? statement = some assignment) :
    (⟨assignment.object.span.start, assignment.name⟩ : NameUse) ∈ statement.references := by
  unfold Metadata.assignment? at assigned
  split at assigned
  · obtain rfl := Option.some.inj assigned
    simp [references, referencesOfList, Node.span]
  · contradiction

/-- The object of a member is the name of the class. -/
theorem name_eq_of_foldable (listed : statement ∈ script.program.body)
    (foldable : foldable? script.scoping (classes script) statement = some (assignment, variable_)) :
    assignment.name = variable_.name := by
  obtain ⟨form, span, place, nameSpan, value, declaration_eq, -, symbol_eq, -⟩ := isClass.declares
  obtain ⟨assigned, -, sole, -⟩ := foldable?_eq_some foldable
  have binds : (Scoping.ofProgram script.program).Binds nameSpan.start
      (⟨assignment.object.span.start, assignment.name⟩ : NameUse).offset := by
    rw [← Script.scoping_of_read read]
    exact ⟨variable_.symbol, by rw [Metadata.sole?_eq_some_iff.1 sole]; rfl, symbol_eq⟩
  have declared : HasName script.program.body nameSpan.start variable_.name := by
    refine ⟨.mk (.binding variable_.name) nameSpan [], ?_, rfl, rfl⟩
    refine mem_nodesOfList.2 ⟨declaration, isClass.listed, ?_⟩
    simp [declaration_eq, nodes, nodesOfList]
  have used := mem_referencesOfList.2 ⟨statement, listed, mem_references_object assigned⟩
  exact binds.name_eq (Script.isSpaced_of_read read).row
    (fun node among => (Script.isPlain_of_read read node among).1) used declared

omit read in
/-- No closure captures the name that is returned, which is part of no member. -/
theorem kept_returned (orderly : IsOrderly script)
    (class_ : classVariable? script.scoping declaration = some variable_) {use : NameUse}
    (used : use ∈ declaration.references) : Kept script use.offset := by
  intro other other_listed owner parts other_class also_closure again waits same
  obtain ⟨member, among, member_waits⟩ := mem_pending_gainsOf.1 waits
  obtain ⟨member_listed, folded, member_foldable, rfl⟩ := mem_membersOf.1 among
  obtain ⟨rfl, -⟩ := eq_of_offset orderly isClass.listed member_listed used
    (mem_references_of_waits member_waits) same
  rw [foldable?_of_classVariable class_] at member_foldable
  contradiction

end Program

/-- A class that returns its constructor, with a member. -/
def returnsOwn : String :=
  "var C=(function(){function C(){}return C}());C.p=1;"

/-- A class that returns what nothing declares, with a member. -/
def returnsOther : String :=
  "var C = (function () { function C() {} return D; }());\nC.p = 1;\n"

end StaticMember
end Shakedown
