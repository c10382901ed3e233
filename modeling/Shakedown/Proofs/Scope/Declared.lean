import Shakedown.Proofs.Scope.Reading

/-!
# Where symbols are declared

A symbol is the offset of its first declaring name. Any other name that adds to it makes it a symbol
that is declared more than once.
-/

namespace Shakedown
namespace ScopeStack

/-- Every declaring name stands for a symbol of its own or adds to one that is declared more than
once. -/
def OwnsNames (stack : ScopeStack) : Prop :=
  ∀ offset symbol, (offset, symbol) ∈ stack.declarations →
    offset = symbol ∨ symbol ∈ stack.repeated

theorem OwnsNames.of_declares {stack after : ScopeStack} {offset : Nat} (owns : stack.OwnsNames)
    (declares : stack.Declares offset after) : after.OwnsNames := by
  obtain ⟨own, declarations_eq, noted⟩ := declares.noted
  have kept : ∀ symbol ∈ stack.repeated, symbol ∈ after.repeated := by
    intro symbol listed
    obtain ⟨-, same⟩ | more := noted
    · rwa [same]
    · rw [more]
      exact List.mem_cons_of_mem _ listed
  intro place symbol listed
  rw [declarations_eq] at listed
  obtain here | before := List.mem_cons.1 listed
  · obtain ⟨rfl, rfl⟩ := Prod.mk.inj here
    obtain ⟨rfl, -⟩ | more := noted
    · exact .inl rfl
    · exact .inr (by simp [more])
  · exact (owns place symbol before).imp_right (kept symbol)

theorem invariant_ownsNames : Invariant OwnsNames where
  use := by
    intro stack offset name owns
    simpa [OwnsNames] using owns
  declare := fun offset name owns => owns.of_declares (declares_declare _ offset name)
  declareVariable := fun offset name owns =>
    owns.of_declares (declares_declareVariable _ offset name)
  settle := by
    intro stack owns
    simpa [OwnsNames] using owns
  enter := fun _ _ owns => owns
  leave := by
    intro stack owns
    simpa [OwnsNames, leave] using owns

end ScopeStack

theorem mem_of_lookup {α β : Type} [BEq α] [LawfulBEq α] {key : α} {value : β} {list : List (α × β)}
    (found : list.lookup key = some value) : (key, value) ∈ list := by
  obtain ⟨before, after, rfl, -⟩ := List.lookup_eq_some_iff.1 found
  simp

/-- The symbol that the use of a name means, however often it is declared. -/
def Meaning.symbol? : Meaning → Option Symbol
  | .undeclared => none
  | .sole symbol => some symbol
  | .contested symbol => some symbol

namespace Scoping

variable {scoping : Scoping} {program : Program} {offset : Nat} {symbol : Symbol}

theorem not_mem_repeated_of_resolve (meant : scoping.resolve offset = .sole symbol) :
    symbol ∉ scoping.repeated := by
  unfold resolve at meant
  split at meant
  · contradiction
  split at meant
  · contradiction
  · rename_i once
    obtain rfl := Meaning.sole.inj meant
    simpa using once

/-- The one declaration of a symbol is where the symbol is. -/
theorem eq_of_symbolAt? (declared : (ofProgram program).symbolAt? offset = some symbol)
    (once : symbol ∉ (ofProgram program).repeated) : offset = symbol := by
  have owns := ScopeStack.invariant_ownsNames.ofProgram program (by simp [ScopeStack.OwnsNames])
  exact (owns offset symbol (mem_of_lookup declared)).resolve_right once

end Scoping
end Shakedown
