import Shakedown.Proofs.Pass.Folded
import Shakedown.Proofs.Scope.References
import Shakedown.Proofs.Script.Shape.Statement

/-!
# Folding and the meanings of names

The folded program is read beside the program. Behind the declaration of a class the stack of scopes
has what its members gain, and is ahead of the other by that until the members are reached there. So
at the end both programs have settled the same uses in the same way, but for those in a member whose
name the closure declares in its own scope.
-/

namespace Shakedown
namespace StaticMember

open Node ScopeStack

variable {script : Script}

/-- A use in no member is captured: none of those that a member leaves to the scope around it has a
name that the closure of the class declares. -/
def Kept (script : Script) (offset : Nat) : Prop :=
  ∀ declaration ∈ script.program.body, ∀ variable_ parts,
    classVariable? script.scoping declaration = some variable_ →
    closureParts? declaration = some parts →
    Escapes (ownScope script.program.isStrict parts)
      (gainsOf script.program.isStrict (membersOf script variable_)).pending offset

/-- The members among statements whose class is among those before. -/
def waitingMembers (script : Script) (before rest : List Node) : List Node :=
  rest.filter fun statement =>
    (foldable? script.scoping (classes script) statement).any fun folded =>
      before.any fun declaration => classVariable? script.scoping declaration == some folded.2

/-- Whether no class asks for strict mode on its own in a way that makes a difference to what its
members gain. -/
def keepsModes (script : Script) : Bool :=
  script.program.body.all fun declaration =>
    match classVariable? script.scoping declaration, closureParts? declaration with
    | some variable_, some parts =>
        gainsOf (script.program.isStrict || hasStrictBody parts) (membersOf script variable_) ==
          gainsOf script.program.isStrict (membersOf script variable_)
    | _, _ => true

/-- A program whose trees are spaced out and of the right shape, and whose closures are read in the
mode of the program or in one that makes no difference. -/
structure IsOrderly (script : Script) : Prop where
  /-- The statements lie in a row. -/
  row : InRow script.text.toList 0 (Text.width script.text.toList) script.program.body
  /-- The statements are of the right shape, and none is a part of a function. -/
  plain : ∀ statement ∈ script.program.body, statement.IsPlain
  /-- What the members of a class gain does not depend on the mode of its closure. -/
  mode : ∀ declaration ∈ script.program.body, ∀ variable_ parts,
    classVariable? script.scoping declaration = some variable_ →
    closureParts? declaration = some parts →
    gainsOf (script.program.isStrict || hasStrictBody parts) (membersOf script variable_) =
      gainsOf script.program.isStrict (membersOf script variable_)

/-- So is every program that is read, where the modes are kept. -/
theorem isOrderly_of_read {text file : String} (read : Script.read text file = .ok script)
    (modes : keepsModes script) : IsOrderly script where
  row := (Script.isSpaced_of_read read).row
  plain := Script.isPlain_of_read read
  mode := by
    intro declaration listed variable_ parts class_ closure
    have kept := List.all_eq_true.1 modes declaration listed
    rw [class_, closure] at kept
    exact beq_iff_eq.1 kept

theorem mem_waitingMembers {before rest : List Node} {statement : Node} :
    statement ∈ waitingMembers script before rest ↔
      statement ∈ rest ∧ ∃ folded,
        foldable? script.scoping (classes script) statement = some folded ∧
        ∃ declaration ∈ before, classVariable? script.scoping declaration = some folded.2 := by
  simp [waitingMembers, Option.any_eq_true]

theorem mem_membersOf {variable_ : ClassVariable} {statement : Node} :
    statement ∈ membersOf script variable_ ↔
      statement ∈ script.program.body ∧ ∃ folded,
        foldable? script.scoping (classes script) statement = some folded ∧
        folded.2 = variable_ := by
  simp [membersOf, Option.any_eq_true]

theorem closure_of_classVariable? {scoping : Scoping} {declaration : Node}
    {variable_ : ClassVariable} (class_ : classVariable? scoping declaration = some variable_) :
    variable_.declarationStop = declaration.span.stop ∧ ∃ parts statements,
      closureParts? declaration = some parts ∧ bodyOf? parts = some statements := by
  unfold classVariable? at class_
  split at class_
  · simp only [Option.bind_eq_bind, Option.bind_eq_some_iff] at class_
    obtain ⟨symbol, -, statements, called, returnSpan, -, built⟩ := class_
    obtain rfl := Option.some.inj built
    rw [calledBody?_eq, Option.bind_eq_some_iff] at called
    obtain ⟨parts, called, body⟩ := called
    exact ⟨rfl, parts, statements, called, body⟩
  · contradiction

theorem classVariable?_of_foldable {statement : Node} {scoping : Scoping}
    {classes : List ClassVariable} {folded : Metadata.PropertyAssignment × ClassVariable}
    (foldable : foldable? scoping classes statement = some folded) :
    classVariable? scoping statement = none := by
  obtain ⟨assignment, variable_⟩ := folded
  obtain ⟨assigned, -⟩ := foldable?_eq_some foldable
  obtain ⟨span, _, _, _, rfl, -⟩ := Metadata.assignment?_eq_some assigned
  rfl

/-- What declares a class is no member. -/
theorem foldable?_of_classVariable {declaration : Node} {scoping : Scoping}
    {classes : List ClassVariable} {variable_ : ClassVariable}
    (declared : classVariable? scoping declaration = some variable_) :
    foldable? scoping classes declaration = none := by
  refine Option.eq_none_iff_forall_ne_some.2 fun folded foldable => ?_
  rw [classVariable?_of_foldable foldable] at declared
  contradiction

/-- A member has a class that is declared before it. -/
theorem exists_class {statement : Node} {folded : Metadata.PropertyAssignment × ClassVariable}
    (foldable : foldable? script.scoping (classes script) statement = some folded) :
    ∃ declaration ∈ script.program.body,
      classVariable? script.scoping declaration = some folded.2 ∧
      declaration.span.stop ≤ statement.span.start := by
  obtain ⟨assignment, variable_⟩ := folded
  obtain ⟨-, known, -, behind⟩ := foldable?_eq_some foldable
  obtain ⟨declaration, listed, class_⟩ := List.mem_filterMap.1 known
  obtain ⟨stop_eq, -⟩ := closure_of_classVariable? class_
  exact ⟨declaration, listed, class_, stop_eq ▸ behind⟩

section Orderly

variable (orderly : IsOrderly script)

include orderly

theorem permits_statement {statement : Node} (listed : statement ∈ script.program.body) :
    statement.Permits true false :=
  (orderly.plain statement listed).1.permits_of_isPart (orderly.plain statement listed).2

theorem permits_member {statement : Node} (listed : statement ∈ script.program.body)
    {folded : Metadata.PropertyAssignment × ClassVariable}
    (foldable : foldable? script.scoping (classes script) statement = some folded) :
    statement.Permits false false := by
  have shaped := (orderly.plain statement listed).1
  obtain ⟨assignment, variable_⟩ := folded
  obtain ⟨assigned, -⟩ := foldable?_eq_some foldable
  obtain ⟨span, _, _, _, rfl, -⟩ := Metadata.assignment?_eq_some assigned
  exact Node.IsShaped.permits_expressionStatement shaped rfl

/-- The declaration of a class stands before its members. -/
theorem declaration_before {before rest : List Node} {statement declaration : Node}
    (whole : script.program.body = before ++ statement :: rest)
    (listed : declaration ∈ script.program.body)
    (behind : declaration.span.stop ≤ statement.span.start) : declaration ∈ before := by
  have statement_listed : statement ∈ script.program.body := by simp [whole]
  have ordered := orderly.row.ordered
  have proper := (orderly.row.spaced statement statement_listed).proper
  have declaration_proper := (orderly.row.spaced declaration listed).proper
  rw [whole] at listed ordered
  obtain earlier | later := List.mem_append.1 listed
  · exact earlier
  · obtain rfl | later := List.mem_cons.1 later
    · omega
    · have after := (List.pairwise_append.1 ordered).2.1
      have behind_statement := (List.pairwise_cons.1 after).1 declaration later
      omega

/-- The members of a class stand behind its declaration. -/
theorem member_behind {before rest : List Node} {statement declaration : Node}
    (whole : script.program.body = before ++ declaration :: rest)
    (listed : statement ∈ script.program.body)
    (behind : declaration.span.stop ≤ statement.span.start) : statement ∈ rest := by
  have declaration_listed : declaration ∈ script.program.body := by simp [whole]
  have ordered := orderly.row.ordered
  have proper := (orderly.row.spaced statement listed).proper
  have declaration_proper := (orderly.row.spaced declaration declaration_listed).proper
  rw [whole] at listed ordered
  obtain earlier | later := List.mem_append.1 listed
  · have before_declaration :=
      (List.pairwise_append.1 ordered).2.2 statement earlier declaration List.mem_cons_self
    omega
  · obtain rfl | later := List.mem_cons.1 later
    · omega
    · exact later

end Orderly

/-! ## Statement by statement -/

/-- What is settled for the uses that the closures of classes capture. -/
def SettlesCaptured (script : Script) (declarations : List Node)
    (settled : List (Nat × Symbol)) : Prop :=
  ∀ declaration ∈ declarations, ∀ variable_ parts,
    classVariable? script.scoping declaration = some variable_ →
    closureParts? declaration = some parts →
    ∀ use ∈ (gainsOf script.program.isStrict (membersOf script variable_)).pending, ∀ symbol,
      (ownScope script.program.isStrict parts).lookup use.name = some symbol →
      (use.offset, symbol) ∈ settled

/-- The folded program is ahead by what the waiting members gain. -/
def Ahead (script : Script) (before rest : List Node) : ScopeStack → ScopeStack → Prop :=
  Adds script.program.isStrict (Kept script)
    (gainsOf script.program.isStrict (waitingMembers script before rest)) []

section Steps

variable {before rest : List Node} {statement : Node} {stack more : ScopeStack}
  (orderly : IsOrderly script) (whole : script.program.body = before ++ statement :: rest)
  (ahead : Ahead script before (statement :: rest) stack more)

include orderly whole ahead

/-- At a member the folded program waits until the other one has read it too. -/
theorem Ahead.member {folded : Metadata.PropertyAssignment × ClassVariable}
    (foldable : foldable? script.scoping (classes script) statement = some folded) :
    Ahead script (before ++ [statement]) rest (readNode false statement stack) more := by
  have listed : statement ∈ script.program.body := by simp [whole]
  obtain ⟨declaration, declaration_listed, class_, behind⟩ := exists_class foldable
  have earlier := declaration_before orderly whole declaration_listed behind
  have waits : waitingMembers script before (statement :: rest) =
      statement :: waitingMembers script before rest := by
    refine List.filter_cons_of_pos ?_
    rw [foldable]
    exact List.any_eq_true.2 ⟨declaration, earlier, beq_iff_eq.2 class_⟩
  unfold Ahead at ahead ⊢
  rw [waits] at ahead
  refine (ahead.catchUp (permits_member orderly listed foldable)).of_members fun node => ?_
  simp [mem_waitingMembers, classVariable?_of_foldable foldable, or_and_right, exists_or]

omit ahead in
/-- Behind the declaration of a class its members wait as well. -/
theorem mem_waitingMembers_behind {variable_ : ClassVariable} {node : Node}
    (class_ : classVariable? script.scoping statement = some variable_) :
    node ∈ waitingMembers script (before ++ [statement]) rest ↔
      node ∈ waitingMembers script before (statement :: rest) ∨
        node ∈ membersOf script variable_ := by
  have unfoldable : foldable? script.scoping (classes script) statement = none :=
    foldable?_of_classVariable class_
  rw [mem_waitingMembers, mem_waitingMembers, mem_membersOf]
  constructor
  · rintro ⟨node_listed, folded, foldable, declaration, among, own⟩
    obtain earlier | here := List.mem_append.1 among
    · exact .inl ⟨List.mem_cons_of_mem _ node_listed, folded, foldable, declaration, earlier, own⟩
    · obtain rfl := List.mem_singleton.1 here
      exact .inr ⟨by simp [whole, node_listed], folded, foldable,
        Option.some.inj (own.symm.trans class_)⟩
  · rintro (⟨node_listed, folded, foldable, declaration, earlier, own⟩ |
      ⟨node_listed, folded, foldable, rfl⟩)
    · obtain rfl | behind := List.mem_cons.1 node_listed
      · rw [unfoldable] at foldable
        contradiction
      · exact ⟨behind, folded, foldable, declaration, List.mem_append_left _ earlier, own⟩
    · obtain ⟨declaration, declaration_listed, own, behind⟩ := exists_class foldable
      have stop_eq : declaration.span.stop = statement.span.stop :=
        (closure_of_classVariable? own).1.symm.trans (closure_of_classVariable? class_).1
      exact ⟨member_behind orderly whole node_listed (stop_eq ▸ behind), folded, foldable,
        statement, by simp, class_⟩

/-- At the declaration of a class the folded program reads the members as well. -/
theorem Ahead.declaration {variable_ : ClassVariable} {parts statements : List Node}
    (class_ : classVariable? script.scoping statement = some variable_)
    (closure : closureParts? statement = some parts) (body : bodyOf? parts = some statements) :
    Ahead script (before ++ [statement]) rest (readNode false statement stack)
        (readNode false (insertInDeclaration (membersOf script variable_) statement) more) ∧
      ∀ use ∈ (gainsOf script.program.isStrict (membersOf script variable_)).pending, ∀ symbol,
        (ownScope script.program.isStrict parts).lookup use.name = some symbol →
        (use.offset, symbol) ∈
          (readNode false (insertInDeclaration (membersOf script variable_) statement)
            more).settled := by
  have listed : statement ∈ script.program.body := by simp [whole]
  have permits : ∀ member ∈ membersOf script variable_, member.Permits false false := by
    intro member among
    obtain ⟨member_listed, folded, foldable, -⟩ := mem_membersOf.1 among
    exact permits_member orderly member_listed foldable
  have differs : Differs script.program.isStrict (ownScope script.program.isStrict parts)
      (gainsOf script.program.isStrict (membersOf script variable_)) (readNode false statement)
      (readNode false (insertInDeclaration (membersOf script variable_) statement)) :=
    differs_insertInDeclaration permits body
      (orderly.mode statement listed variable_ parts class_ closure) closure
      (orderly.plain statement listed).1
  have both := Adds.readNodes ahead (List.forall_mem_singleton.2 (permits_statement orderly listed))
  have inserted := (differs.adds ahead.right).mono fun offset (is_kept : Kept script offset) =>
    is_kept statement listed variable_ parts class_ closure
  refine ⟨(both.trans inserted).of_append.of_members fun node => ?_, differs.captures ahead.right⟩
  rw [List.mem_append]
  exact mem_waitingMembers_behind orderly whole class_

/-- Any other statement is read on both sides. -/
theorem Ahead.other (unfoldable : foldable? script.scoping (classes script) statement = none)
    (no_class : classVariable? script.scoping statement = none) :
    Ahead script (before ++ [statement]) rest (readNode false statement stack)
      (readNode false statement more) := by
  have listed : statement ∈ script.program.body := by simp [whole]
  have both := Adds.readNodes ahead (List.forall_mem_singleton.2 (permits_statement orderly listed))
  refine both.of_members fun node => ?_
  simp only [mem_waitingMembers, List.mem_append, List.mem_cons]
  grind

/-- One statement of the program, and what folding makes of it. -/
theorem Ahead.step :
    Ahead script (before ++ [statement]) rest (readNode false statement stack)
        (readNodes (foldStatement script statement).toList more) ∧
      SettlesCaptured script [statement]
        (readNodes (foldStatement script statement).toList more).settled := by
  unfold foldStatement SettlesCaptured
  cases foldable : foldable? script.scoping (classes script) statement with
  | some folded =>
      refine ⟨ahead.member orderly whole foldable, ?_⟩
      simp [classVariable?_of_foldable foldable]
  | none =>
      cases class_ : classVariable? script.scoping statement with
      | none =>
          refine ⟨ahead.other orderly whole foldable class_, ?_⟩
          simp [class_]
      | some variable_ =>
          obtain ⟨-, parts, statements, closure, body⟩ := closure_of_classVariable? class_
          obtain ⟨next, captured⟩ := ahead.declaration orderly whole class_ closure body
          refine ⟨next, ?_⟩
          simpa [class_, closure, readNodes] using captured

end Steps

/-- The rest of the program, and what folding makes of it. -/
theorem Ahead.run (orderly : IsOrderly script) {before rest : List Node}
    (whole : script.program.body = before ++ rest) {stack more : ScopeStack}
    (ahead : Ahead script before rest stack more) :
    Ahead script script.program.body [] (readNodes rest stack)
        (readNodes (rest.filterMap (foldStatement script)) more) ∧
      SettlesCaptured script rest
        (readNodes (rest.filterMap (foldStatement script)) more).settled := by
  induction rest generalizing before stack more with
  | nil =>
      obtain rfl : script.program.body = before := by simpa using whole
      exact ⟨ahead, nofun⟩
  | cons statement rest ih =>
      obtain ⟨next, captured⟩ := ahead.step orderly whole
      obtain ⟨last, captured_behind⟩ := ih (by simpa using whole) next
      have read_eq : readNodes ((statement :: rest).filterMap (foldStatement script)) more =
          readNodes (rest.filterMap (foldStatement script))
            (readNodes (foldStatement script statement).toList more) := by
        rw [← readNodes_append, List.filterMap_cons]
        cases foldStatement script statement <;> rfl
      rw [read_eq]
      refine ⟨last,
        fun declaration listed variable_ parts class_ closure use waits symbol found => ?_⟩
      obtain rfl | behind := List.mem_cons.1 listed
      · exact (invariant_mem_settled (use.offset, symbol)).readNodes _
          (captured declaration List.mem_cons_self variable_ parts class_ closure use waits symbol
            found)
      · exact captured_behind declaration behind variable_ parts class_ closure use waits symbol
          found

/-- Both programs from their start to their end. -/
theorem ahead_foldedBody (orderly : IsOrderly script) :
    Adds script.program.isStrict (Kept script) .none []
        (readNodes script.program.body (blank script.program.isStrict))
        (readNodes (foldedBody script) (blank script.program.isStrict)) ∧
      SettlesCaptured script script.program.body
        (readNodes (foldedBody script) (blank script.program.isStrict)).settled := by
  have none_wait : waitingMembers script [] script.program.body = [] := by
    simp [waitingMembers]
  have inside : InFunction script.program.isStrict [] (blank script.program.isStrict) :=
    ⟨_, rfl, rfl, rfl⟩
  have start : Ahead script [] script.program.body (blank script.program.isStrict)
      (blank script.program.isStrict) := by
    rw [Ahead, none_wait]
    exact .refl _ inside
  exact start.run orderly rfl

end StaticMember
end Shakedown
