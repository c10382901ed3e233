import Shakedown.Proofs.Scope.Reading

/-!
# Reading is local

What is read in scopes of its own leaves the scopes around alone: it only hands uses to the
innermost of them and adds to what is noted. So a tree that declares nothing around it adds the
same, wherever it is read in the same mode.
-/

namespace Shakedown

/-- What reading adds to what was there before. -/
structure Gain where
  /-- The uses that the innermost scope is left with. -/
  pending : List NameUse
  /-- The uses settled in scopes that are closed. -/
  settled : List (Nat × Symbol)
  /-- All uses. -/
  uses : List NameUse
  /-- The symbols declared again. -/
  repeated : List Symbol
  /-- The symbols of declaring names. -/
  declarations : List (Nat × Symbol)
  deriving DecidableEq

/-- Nothing. -/
def Gain.none : Gain :=
  ⟨[], [], [], [], []⟩

/-- What is added in two steps. -/
def Gain.append (first second : Gain) : Gain :=
  ⟨first.pending ++ second.pending, first.settled ++ second.settled, first.uses ++ second.uses,
    first.repeated ++ second.repeated, first.declarations ++ second.declarations⟩

namespace ScopeStack

/-- A stack with more scopes on top of it, and with more in and below its innermost scope. -/
def grow (inner : List Frame) (gain : Gain) (base : ScopeStack) : ScopeStack where
  frames := inner ++ base.frames.modifyHead (hand gain.pending)
  settled := gain.settled ++ base.settled
  uses := gain.uses ++ base.uses
  repeated := gain.repeated ++ base.repeated
  declarations := gain.declarations ++ base.declarations

/-- A change that sees nothing of what is below the scopes on top. -/
def IsLocal (change : ScopeStack → ScopeStack) (scopes after : List Bool) : Prop :=
  ∀ inner gain, inner.map Frame.isFunction = scopes →
    ∃ changed more, changed.map Frame.isFunction = after ∧
      ∀ base : ScopeStack, base.frames ≠ [] →
        change (base.grow inner gain) = base.grow changed more

variable {scopes : List Bool}

theorem isLocal_use (offset : Nat) (name : String) : IsLocal (use · offset name) scopes scopes := by
  intro inner gain flags
  cases inner with
  | nil =>
      refine ⟨[], { gain with
        pending := ⟨offset, name⟩ :: gain.pending, uses := ⟨offset, name⟩ :: gain.uses }, flags, ?_⟩
      rintro ⟨_ | ⟨frame, frames⟩, settled, uses, repeated, declarations⟩ opened
      · contradiction
      · rfl
  | cons frame inner =>
      exact ⟨{ frame with pending := ⟨offset, name⟩ :: frame.pending } :: inner,
        { gain with uses := ⟨offset, name⟩ :: gain.uses }, flags, fun base opened => rfl⟩

theorem isLocal_declare (offset : Nat) (name : String) (opened : scopes ≠ []) :
    IsLocal (declare · offset name) scopes scopes := by
  intro inner gain flags
  obtain - | ⟨frame, inner⟩ := inner
  · exact absurd flags.symm opened
  obtain ⟨changed, symbol, repeated, flag, -, declares⟩ := exists_declare frame offset name
  refine ⟨withPending frame.pending changed :: inner, { gain with
    repeated := repeated ++ gain.repeated
    declarations := (offset, symbol) :: gain.declarations }, ?_, fun base opened => ?_⟩
  · rw [← flags, List.map_cons, List.map_cons, ← flag]
    rfl
  · dsimp only
    rw [declares frame.pending _ _ rfl]
    simp [grow]

theorem isLocal_declareVariable (offset : Nat) (name : String) (owned : true ∈ scopes) :
    IsLocal (declareVariable · offset name) scopes scopes := by
  intro inner gain flags
  obtain ⟨blocks, function, outer, rfl, blocks_only, is_function⟩ := exists_function (flags ▸ owned)
  obtain ⟨changed, owner, symbol, repeated, changed_flags, owner_flag, -, declares⟩ :=
    exists_declareVariable blocks_only is_function offset name
  refine ⟨changed ++ withPending function.pending owner :: outer, { gain with
    repeated := repeated ++ gain.repeated
    declarations := (offset, symbol) :: gain.declarations }, ?_, fun base opened => ?_⟩
  · simp [← flags, changed_flags, withPending, owner_flag, is_function]
  · dsimp only
    rw [declares function.pending (outer ++ base.frames.modifyHead (hand gain.pending)) _ (by
      simp [grow])]
    simp [grow]

theorem isLocal_enter (isFunction isStrict : Bool) :
    IsLocal (enter (.fresh isFunction isStrict)) scopes (isFunction :: scopes) :=
  fun inner gain flags => ⟨.fresh isFunction isStrict :: inner, gain, by simp [Frame.fresh, flags],
    fun _ _ => rfl⟩

theorem isLocal_settle (opened : scopes ≠ []) : IsLocal settle scopes scopes := by
  intro inner gain flags
  obtain - | ⟨frame, _ | ⟨outer, inner⟩⟩ := inner
  · exact absurd flags.symm opened
  · refine ⟨[emptied frame], { gain with
      settled := settledIn frame ++ gain.settled
      pending := handedOn frame ++ gain.pending }, flags, ?_⟩
    rintro ⟨_ | ⟨outer, frames⟩, settled, uses, repeated, declarations⟩ opened
    · contradiction
    · rw [settle_eq_of_around rfl]
      simp [grow, hand]
  · refine ⟨emptied frame :: hand (handedOn frame) outer :: inner, { gain with
      settled := settledIn frame ++ gain.settled }, flags, fun base opened => ?_⟩
    rw [settle_eq_of_around rfl]
    simp [grow]

theorem isLocal_leave (isFunction : Bool) : IsLocal leave (isFunction :: scopes) scopes := by
  intro inner gain flags
  obtain ⟨changed, more, changed_flags, local_⟩ :=
    isLocal_settle (List.cons_ne_nil _ _) inner gain flags
  obtain - | ⟨frame, changed⟩ := changed
  · contradiction
  · refine ⟨changed, more, (List.cons.inj changed_flags).2, fun base opened => ?_⟩
    rw [leave, local_ base opened]
    simp [grow]

/-- Two stacks that grew in the same way from related ones. -/
def Grown (related : ScopeStack → ScopeStack → Prop) (scopes : List Bool)
    (stack partner : ScopeStack) : Prop :=
  ∃ inner gain base other, related base other ∧ inner.map Frame.isFunction = scopes ∧
    stack = base.grow inner gain ∧ partner = other.grow inner gain

/-- Stacks with scopes that are in the same mode. -/
structure InSameMode (stack partner : ScopeStack) : Prop where
  /-- The one has a scope. -/
  opened : stack.frames ≠ []
  /-- So has the other. -/
  partner_opened : partner.frames ≠ []
  /-- The innermost scopes are in the same mode. -/
  isStrict : partner.top.isStrict = stack.top.isStrict

section Grown

variable {related : ScopeStack → ScopeStack → Prop} {after : List Bool} {stack partner : ScopeStack}

theorem IsLocal.grown {change : ScopeStack → ScopeStack} (local_ : IsLocal change scopes after)
    (alike : ∀ {base other}, related base other → InSameMode base other)
    (start : Grown related scopes stack partner) :
    Grown related after (change stack) (change partner) := by
  obtain ⟨inner, gain, base, other, both, flags, rfl, rfl⟩ := start
  obtain ⟨changed, more, changed_flags, changes⟩ := local_ inner gain flags
  exact ⟨changed, more, base, other, both, changed_flags, changes base (alike both).opened,
    changes other (alike both).partner_opened⟩

theorem grow_none (base : ScopeStack) : base.grow [] .none = base := by
  obtain ⟨_ | ⟨frame, frames⟩, settled, uses, repeated, declarations⟩ := base <;> rfl

/-- What is gained first may be counted as having been there before. -/
theorem grow_eq (base : ScopeStack) (inner : List Frame) (gain : Gain) :
    base.grow inner gain = (base.grow [] gain).grow inner .none := by
  obtain ⟨_ | ⟨frame, frames⟩, settled, uses, repeated, declarations⟩ := base <;> rfl

theorem Grown.of_related (both : related stack partner) : Grown related [] stack partner :=
  ⟨[], .none, stack, partner, both, rfl, (grow_none stack).symm, (grow_none partner).symm⟩

theorem top_grow_nil (base : ScopeStack) (gain : Gain) :
    (base.grow [] gain).top.isStrict = base.top.isStrict := by
  obtain ⟨_ | ⟨frame, frames⟩, settled, uses, repeated, declarations⟩ := base <;> rfl

/-- What is read above two stacks that differ only in what is not looked at grows on both in the
same way. -/
theorem simulation_grown (alike : ∀ {base other}, related base other → InSameMode base other) :
    Simulation id false false (Grown related) where
  isStrict := by
    rintro scopes stack partner ⟨inner, gain, base, other, both, -, rfl, rfl⟩
    cases inner with
    | nil => rw [top_grow_nil, top_grow_nil, (alike both).isStrict]
    | cons frame inner => rfl
  use := fun offset name start => (isLocal_use offset name).grown alike start
  declare := fun offset name allowed start =>
    (isLocal_declare offset name (allowed.resolve_right nofun)).grown alike start
  declareVariable := fun offset name allowed start =>
    (isLocal_declareVariable offset name (allowed.resolve_right nofun)).grown alike start
  settle := fun allowed start => (isLocal_settle (allowed.resolve_right nofun)).grown alike start
  enter := fun isFunction isStrict start => (isLocal_enter isFunction isStrict).grown alike start
  leave := fun start => (isLocal_leave _).grown alike start

end Grown

/-! ## Trees that declare nothing around them -/

/-- A single scope in which nothing is declared. -/
def blank (isStrict : Bool) : ScopeStack :=
  ⟨[.fresh true isStrict], [], [], [], []⟩

/-- What reading a tree adds in a mode, whatever is around it. -/
def gainOf (isStrict : Bool) (node : Node) : Gain :=
  let stack := readNode false node (blank isStrict)
  ⟨stack.top.pending, stack.settled, stack.uses, stack.repeated, stack.declarations⟩

/-- A tree that declares nothing around it adds the same wherever it is read in the same mode. -/
theorem readNode_eq_grow {node : Node} (permits : node.Permits false false) {stack : ScopeStack}
    (opened : stack.frames ≠ []) :
    readNode false node stack = stack.grow [] (gainOf stack.top.isStrict node) := by
  have alike : ∀ {base other}, base = blank stack.top.isStrict ∧ other = stack →
      InSameMode base other := by
    rintro _ _ ⟨rfl, rfl⟩
    exact ⟨List.cons_ne_nil _ _, opened, rfl⟩
  have start : Grown (fun base other => base = blank stack.top.isStrict ∧ other = stack) []
      (blank stack.top.isStrict) stack :=
    .of_related ⟨rfl, rfl⟩
  obtain ⟨inner, gain, _, _, ⟨rfl, rfl⟩, flags, read_blank, read⟩ :=
    (simulation_grown alike).keeps node false (.inr permits) node.mirrors_refl start
  obtain rfl := List.map_eq_nil_iff.1 flags
  rw [read, gainOf, read_blank]
  simp [grow, blank, top, hand, Frame.fresh]

end ScopeStack
end Shakedown
