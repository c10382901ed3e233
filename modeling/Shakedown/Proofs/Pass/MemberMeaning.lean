import Mathlib.Data.List.Nodup
import Shakedown.Proofs.Pass.Folding
import Shakedown.Proofs.Pass.MemberOrder
import Shakedown.Proofs.Scope.Apart

/-!
# What names mean in moved members

A member is read in the scope of a closure instead of behind it. Its names mean what they meant
there, but for those that the closure declares in its own scope: these the closure captures.
-/

namespace Shakedown

open Node ScopeStack

/-- What waits when a tree was read are references of the tree. -/
theorem ScopeStack.mem_references_of_waits {isStrict : Bool} {node : Node} {use : NameUse}
    (waits : use ∈ (gainOf isStrict node).pending) : use ∈ node.references := by
  have start : ∀ use ∈ (blank isStrict).waiting, use ∈ (blank isStrict).uses := nofun
  have among : ∀ use ∈ (readNode false node (blank isStrict)).waiting,
      use ∈ (readNode false node (blank isStrict)).uses := invariant_waiting.readNode node start
  have used := among use (mem_waiting_of_top waits)
  rw [notes node false] at used
  simpa [blank] using used

theorem Meaning.symbol?_moved (position : Nat → Nat) (meaning : Meaning) :
    (meaning.moved position).symbol? = meaning.symbol?.map position := by
  cases meaning <;> rfl

namespace StaticMember

variable {script again : Script} {position : Nat → Nat} {statement declaration : Node}
  {variable_ : ClassVariable} {assignment : Metadata.PropertyAssignment} {parts : List Node}
  {use : NameUse}

/-- What a member reads from around it, by a name that the closure of its class declares. -/
def captor? (script : Script) (declaration statement : Node) (use : NameUse) : Option Symbol :=
  if use ∈ (gainOf script.program.isStrict statement).pending then
    (closureParts? declaration).bind fun parts =>
      (ownScope script.program.isStrict parts).lookup use.name
  else
    none

/-- A script whose statements are those of another one with all members in their classes, with its
names in other places. -/
structure IsFolded (script again : Script) (position : Nat → Nat) : Prop where
  /-- Names in different places stay in different places. -/
  injective : Function.Injective position
  /-- The mode of the program is the same. -/
  isStrict : again.program.isStrict = script.program.isStrict
  /-- The statements have the shape that folding makes of the others. -/
  mirrored : mirrorsAll position (foldedBody script) again.program.body

section Orderly

variable (orderly : IsOrderly script)

include orderly

/-- Two references of one place are the same, in the same statement. -/
theorem eq_of_offset {other : Node} (listed : statement ∈ script.program.body)
    (also_listed : other ∈ script.program.body) (used : use ∈ statement.references)
    {again : NameUse} (also_used : again ∈ other.references) (same : again.offset = use.offset) :
    other = statement ∧ again = use := by
  have row := orderly.row
  have inside := (row.spaced statement listed).covers_references used
  have also_inside := (row.spaced other also_listed).covers_references also_used
  obtain rfl : other = statement := by
    obtain eq | apart := row.eq_or_apart also_listed listed
    · exact eq
    · omega
  refine ⟨rfl, ?_⟩
  have ascending := (orderly.plain other listed).1.ascending_references (row.spaced other listed)
  exact List.inj_on_of_nodup_map (ascending.imp Nat.ne_of_lt) also_used used same

/-- A class has one declaration. -/
theorem eq_of_class {other : Node} (listed : declaration ∈ script.program.body)
    (also_listed : other ∈ script.program.body)
    (class_ : classVariable? script.scoping declaration = some variable_)
    (also_class : classVariable? script.scoping other = some variable_) : other = declaration := by
  have stop_eq := (closure_of_classVariable? class_).1
  have also_stop_eq := (closure_of_classVariable? also_class).1
  have proper := (orderly.row.spaced declaration listed).proper
  have also_proper := (orderly.row.spaced other also_listed).proper
  obtain eq | apart := orderly.row.eq_or_apart also_listed listed
  · exact eq
  · omega

/-- No closure captures a use but that of the class whose member has it. -/
theorem kept_of_captor? (listed : statement ∈ script.program.body)
    (foldable : foldable? script.scoping (classes script) statement = some (assignment, variable_))
    (declared : declaration ∈ script.program.body)
    (class_ : classVariable? script.scoping declaration = some variable_)
    (used : use ∈ statement.references)
    (free : captor? script declaration statement use = none) : Kept script use.offset := by
  intro other other_listed owner parts other_class closure again waits same
  obtain ⟨member, among, member_waits⟩ := mem_pending_gainsOf.1 waits
  obtain ⟨member_listed, folded, member_foldable, rfl⟩ := mem_membersOf.1 among
  obtain ⟨rfl, rfl⟩ := eq_of_offset orderly listed member_listed used
    (mem_references_of_waits member_waits) same
  obtain rfl := Option.some.inj (foldable.symm.trans member_foldable)
  obtain rfl := eq_of_class orderly declared other_listed class_ other_class
  simpa [captor?, member_waits, closure] using free

/-- A use that no closure captures has its meaning in the folded program. -/
theorem resolve_foldedProgram
    (apart : ((referencesOfList (foldedBody script)).map NameUse.offset).Nodup) {offset : Nat}
    (kept : Kept script offset) :
    (Scoping.ofProgram (foldedProgram script)).resolve offset =
      (Scoping.ofProgram script.program).resolve offset := by
  obtain ⟨settled_iff, repeated_iff⟩ := (ahead_foldedBody orderly).1.settle_outermost
  have source_nodup := nodup_settled
    (orderly.row.nodup_references fun node listed => (orderly.plain node listed).1)
  have folded_nodup : ((ScopeStack.ofProgram (foldedProgram script)).settled.map Prod.fst).Nodup :=
    nodup_settled apart
  have meanings_eq : (Scoping.ofProgram (foldedProgram script)).meanings.lookup offset =
      (Scoping.ofProgram script.program).meanings.lookup offset := by
    refine Option.ext fun symbol => ?_
    exact (lookup_eq_some_iff_mem folded_nodup).trans
      ((settled_iff offset symbol kept).trans (lookup_eq_some_iff_mem source_nodup).symm)
  have again_iff : ∀ symbol, symbol ∈ (Scoping.ofProgram (foldedProgram script)).repeated ↔
      symbol ∈ (Scoping.ofProgram script.program).repeated := repeated_iff
  rw [Scoping.resolve_eq, Scoping.resolve_eq, meanings_eq]
  simp only [again_iff]

/-- A use that the closure captures means there what the closure declares. -/
theorem symbol?_foldedProgram
    (apart : ((referencesOfList (foldedBody script)).map NameUse.offset).Nodup)
    (listed : statement ∈ script.program.body)
    (foldable : foldable? script.scoping (classes script) statement = some (assignment, variable_))
    (declared : declaration ∈ script.program.body)
    (class_ : classVariable? script.scoping declaration = some variable_) {symbol : Symbol}
    (captures : captor? script declaration statement use = some symbol) :
    ((Scoping.ofProgram (foldedProgram script)).resolve use.offset).symbol? = some symbol := by
  unfold captor? at captures
  split at captures
  · rename_i waits
    obtain ⟨parts, closure, found⟩ := Option.bind_eq_some_iff.1 captures
    have among : statement ∈ membersOf script variable_ :=
      mem_membersOf.2 ⟨listed, (assignment, variable_), foldable, rfl⟩
    have read := (ahead_foldedBody orderly).2 declaration declared variable_ parts class_ closure
      use (mem_pending_gainsOf.2 ⟨statement, among, waits⟩) symbol found
    have settled : (use.offset, symbol) ∈ (ScopeStack.ofProgram (foldedProgram script)).settled :=
      (suffix_settle _).mem read
    have folded_nodup :
        ((ScopeStack.ofProgram (foldedProgram script)).settled.map Prod.fst).Nodup :=
      nodup_settled apart
    have meaning : (Scoping.ofProgram (foldedProgram script)).meanings.lookup use.offset =
        some symbol := (lookup_eq_some_iff_mem folded_nodup).2 settled
    rw [Scoping.resolve_eq, meaning]
    dsimp only
    split <;> rfl
  · contradiction

end Orderly

/-- The references of the folded program stand apart when those of its image do. -/
theorem IsFolded.nodup (folded : IsFolded script again position)
    (apart : ((referencesOfList again.program.body).map NameUse.offset).Nodup) :
    ((referencesOfList (foldedBody script)).map NameUse.offset).Nodup := by
  have references_eq :=
    referencesOfList_of_each (fun node _ image => references_of_mirrors node image)
    folded.mirrored
  have offsets_eq : (referencesOfList again.program.body).map NameUse.offset =
      ((referencesOfList (foldedBody script)).map NameUse.offset).map position := by
    simp [references_eq, NameUse.moved, Function.comp_def]
  rw [offsets_eq] at apart
  exact apart.of_map

theorem mem_references_of_value (assigned : Metadata.assignment? statement = some assignment)
    (used : use ∈ assignment.value.references) : use ∈ statement.references := by
  unfold Metadata.assignment? at assigned
  split at assigned
  · obtain rfl := Option.some.inj assigned
    simp [references, referencesOfList, used]
  · contradiction

/-- What a name means in the folded text is what it means in the statements that folding is meant to
make, in its new place. -/
theorem resolve_again {text file : String} (again_read : Script.read text file = .ok again)
    (folded : IsFolded script again position) (offset : Nat) :
    again.scoping.resolve (position offset) =
      ((Scoping.ofProgram (foldedProgram script)).resolve offset).moved position := by
  have strict_eq : again.program.isStrict = (foldedProgram script).isStrict := folded.isStrict
  rw [Script.scoping_of_read again_read]
  exact Scoping.resolve_of_mirrors folded.injective strict_eq folded.mirrored offset

/-- Fold a script, read the folded text again, and compare the statements with those that folding is
meant to make. Each reference in the value of a moved member means then, in its new place, what it
meant before, unless the member leaves the name to the scopes around it and the closure of the class
declares it: then it means what the closure declares, in its new place. -/
theorem resolve_folded {text file : String} (read : Script.read text file = .ok script)
    (modes : keepsModes script)
    (again_read : Script.read ((record script Revision.empty).render text).text file = .ok again)
    (folded : IsFolded script again position) (listed : statement ∈ script.program.body)
    (foldable : foldable? script.scoping (classes script) statement = some (assignment, variable_))
    (declared : declaration ∈ script.program.body)
    (class_ : classVariable? script.scoping declaration = some variable_)
    (used : use ∈ assignment.value.references) :
    (captor? script declaration statement use = none →
        again.scoping.resolve (position use.offset) =
          (script.scoping.resolve use.offset).moved position) ∧
      ∀ symbol, captor? script declaration statement use = some symbol →
        (again.scoping.resolve (position use.offset)).symbol? = some (position symbol) := by
  have orderly := isOrderly_of_read read modes
  have again_nodup := (Script.isSpaced_of_read again_read).row.nodup_references fun node among =>
    (Script.isPlain_of_read again_read node among).1
  have apart := folded.nodup again_nodup
  have used := mem_references_of_value (foldable?_eq_some foldable).1 used
  have image := resolve_again again_read folded use.offset
  constructor
  · intro free
    have kept := kept_of_captor? orderly listed foldable declared class_ used free
    rw [image, Script.scoping_of_read read, resolve_foldedProgram orderly apart kept]
  · intro symbol captures
    have meant := symbol?_foldedProgram orderly apart listed foldable declared class_ captures
    rw [image, Meaning.symbol?_moved, meant]
    rfl

/-- Where the offsets of a text go when the part at `start` moves back to `target`, with a semicolon
behind it. -/
def movedBack (target start length offset : Nat) : Nat :=
  if offset < target then offset
  else if offset < start then offset + length + 1
  else if offset < start + length then offset - start + target
  else offset + 1

theorem injective_movedBack {target start : Nat} (length : Nat) (back : target ≤ start) :
    Function.Injective (movedBack target start length) := by
  intro first second same
  grind [movedBack]

/-- A class, and a member whose value uses a variable outside and the class. -/
def usesOutside : String :=
  "var a=1;var C=(function(){function C(){}return C}());C.p=a+C.q;"

/-- The folded text means the same by the variable, and the function in the closure by the class. -/
theorem resolve_folded_usesOutside : ∃ script again statement assignment,
    Script.read usesOutside "c.js" = .ok script ∧
    Script.read ((record script Revision.empty).render usesOutside).text "c.js" = .ok again ∧
    statement ∈ script.program.body ∧ Metadata.assignment? statement = some assignment ∧
    assignment.value.references = [⟨57, "a"⟩, ⟨59, "C"⟩] ∧
    script.scoping.resolve 57 = .sole 4 ∧ script.scoping.resolve 59 = .sole 12 ∧
    again.scoping.resolve 44 = .sole 4 ∧ (again.scoping.resolve 46).symbol? = some 35 := by
  have suits : (Script.read usesOutside "c.js").toOption.any fun script =>
      (Script.read ((record script Revision.empty).render usesOutside).text "c.js").toOption.any
        fun again =>
          script.program.body.any fun declaration => script.program.body.any fun statement =>
            (classVariable? script.scoping declaration).any fun class_ =>
              (foldable? script.scoping (classes script) statement).any fun
              | (assignment, variable_) =>
                variable_ = class_ ∧ keepsModes script ∧
                again.program.isStrict = script.program.isStrict ∧
                mirrorsAll (movedBack 40 53 9) (foldedBody script) again.program.body ∧
                assignment.value.references = [⟨57, "a"⟩, ⟨59, "C"⟩] ∧
                captor? script declaration statement ⟨57, "a"⟩ = none ∧
                captor? script declaration statement ⟨59, "C"⟩ = some 35 ∧
                script.scoping.resolve 57 = .sole 4 ∧ script.scoping.resolve 59 = .sole 12 := by
    decide +kernel
  obtain ⟨script, found, suits⟩ := (Option.any_eq_true _ _).1 suits
  obtain ⟨again, again_found, suits⟩ := (Option.any_eq_true _ _).1 suits
  obtain ⟨declaration, declared, suits⟩ := List.any_eq_true.1 suits
  obtain ⟨statement, listed, suits⟩ := List.any_eq_true.1 suits
  obtain ⟨class_, class_eq, suits⟩ := (Option.any_eq_true _ _).1 suits
  obtain ⟨⟨assignment, variable_⟩, foldable, suits⟩ := (Option.any_eq_true _ _).1 suits
  obtain ⟨rfl, modes, strict_eq, mirrored, references_eq, free, captured, outside, own⟩ :=
    of_decide_eq_true suits
  have read : Script.read usesOutside "c.js" = .ok script := Except.eq_ok_of_toOption found
  have again_read := Except.eq_ok_of_toOption again_found
  have folded : IsFolded script again (movedBack 40 53 9) :=
    ⟨injective_movedBack 9 (by decide), strict_eq, mirrored⟩
  have variable_used : (⟨57, "a"⟩ : NameUse) ∈ assignment.value.references := by
    simp [references_eq]
  have class_used : (⟨59, "C"⟩ : NameUse) ∈ assignment.value.references := by
    simp [references_eq]
  have meant := (resolve_folded read modes again_read folded listed foldable declared class_eq
    variable_used).1 free
  have class_meant := (resolve_folded read modes again_read folded listed foldable declared class_eq
    class_used).2 35 captured
  refine ⟨script, again, statement, assignment, read, again_read, listed,
    (foldable?_eq_some foldable).1, references_eq, outside, own, ?_, class_meant⟩
  rw [outside] at meant
  exact meant

/-- A class whose closure has a variable, and a member whose value uses one of that name outside. -/
def usesCaptured : String :=
  "var x=1;var C=(function(){function C(){}var x=2;return C}());C.p=x;"

/-- In the folded text the member uses the variable of the closure. -/
theorem resolve_folded_usesCaptured : ∃ script again statement assignment variable_,
    Script.read usesCaptured "c.js" = .ok script ∧
    Script.read ((record script Revision.empty).render usesCaptured).text "c.js" = .ok again ∧
    IsFolded script again (movedBack 48 61 5) ∧ statement ∈ script.program.body ∧
    foldable? script.scoping (classes script) statement = some (assignment, variable_) ∧
    variable_.name = "C" ∧ assignment.value.references = [⟨65, "x"⟩] ∧
    script.scoping.resolve 65 = .sole 4 ∧
    again.scoping.resolve (movedBack 48 61 5 65) = .sole (movedBack 48 61 5 44) := by
  have suits : (Script.read usesCaptured "c.js").toOption.any fun script =>
      (Script.read ((record script Revision.empty).render usesCaptured).text "c.js").toOption.any
        fun again =>
          script.program.body.any fun statement =>
            (foldable? script.scoping (classes script) statement).any fun (assignment, variable_) =>
              again.program.isStrict = script.program.isStrict ∧
              mirrorsAll (movedBack 48 61 5) (foldedBody script) again.program.body ∧
              variable_.name = "C" ∧ assignment.value.references = [⟨65, "x"⟩] ∧
              script.scoping.resolve 65 = .sole 4 ∧
              again.scoping.resolve (movedBack 48 61 5 65) = .sole (movedBack 48 61 5 44) := by
    decide +kernel
  obtain ⟨script, found, suits⟩ := (Option.any_eq_true _ _).1 suits
  obtain ⟨again, again_found, suits⟩ := (Option.any_eq_true _ _).1 suits
  obtain ⟨statement, listed, suits⟩ := List.any_eq_true.1 suits
  obtain ⟨⟨assignment, variable_⟩, foldable, suits⟩ := (Option.any_eq_true _ _).1 suits
  obtain ⟨strict_eq, mirrored, name_eq, references_eq, outside, inside⟩ := of_decide_eq_true suits
  have folded : IsFolded script again (movedBack 48 61 5) :=
    ⟨injective_movedBack 5 (by decide), strict_eq, mirrored⟩
  exact ⟨script, again, statement, assignment, variable_, Except.eq_ok_of_toOption found,
    Except.eq_ok_of_toOption again_found, folded, listed, foldable, name_eq, references_eq, outside,
    inside⟩

end StaticMember
end Shakedown
