import Shakedown.Proofs.Script.Course
import Shakedown.Proofs.Script.Spacing
import Shakedown.Script.Reader.Basic

/-!
# Reading leaves trees spaced out

A trail is what reading has left behind since some state: the trees read since then, in a row
between the token that came next and the last token read. Each step of reading goes on with the
trail, and a node made of the whole row is spaced out because tokens are framed by ink.
-/

namespace Shakedown
namespace Reader

open Node Text

/-! ## What holds of every result -/

/-- Whatever a reader gives, and the state behind it, are as asked for. -/
def Meets {α : Type} (reader : Reader α) (context : ReadContext) (state : ReadState)
    (post : α → ReadState → Prop) : Prop :=
  ∀ result after, reader context state = .ok (result, after) → post result after

section Meets

variable {α β σ : Type} {reader : Reader α} {next : α → Reader β} {context : ReadContext}
  {state : ReadState} {post : α → ReadState → Prop} {last : β → ReadState → Prop}

theorem meets_pure {value : α} (holds : post value state) :
    Meets (pure value) context state post := by
  intro result after run
  cases run
  exact holds

theorem meets_throw {fault : SyntaxFault} :
    Meets (throw fault : Reader α) context state post := by
  intro result after run
  cases run

theorem meets_bind
    (first : Meets reader context state fun value after =>
      Meets (next value) context after last) : Meets (reader >>= next) context state last := by
  intro result after run
  have run_eq : (reader >>= next) context state =
      (reader context state).bind fun step => next step.1 context step.2 := rfl
  rw [run_eq] at run
  cases step : reader context state with
  | error fault =>
      rw [step] at run
      cases run
  | ok between =>
      rw [step] at run
      exact first between.1 between.2 step result after run

theorem Meets.mono {weaker : α → ReadState → Prop} (meets : Meets reader context state post)
    (implies : ∀ result after, post result after → weaker result after) :
    Meets reader context state weaker :=
  fun result after run => implies result after (meets result after run)

theorem meets_within {change : ReadContext → ReadContext}
    (meets : Meets reader (change context) state post) :
    Meets (within change reader) context state post :=
  meets

theorem meets_map {f : α → β} (meets : Meets reader context state fun value => last (f value)) :
    Meets (f <$> reader) context state last := by
  intro result after run
  have run_eq : (f <$> reader) context state =
      (reader context state).map fun step => (f step.1, step.2) := rfl
  rw [run_eq] at run
  cases step : reader context state with
  | error fault =>
      rw [step] at run
      cases run
  | ok between =>
      rw [step] at run
      obtain ⟨rfl, rfl⟩ := Prod.mk.inj (Except.ok.inj run)
      exact meets between.1 between.2 step

theorem meets_orElse {second : Reader α} (first_meets : Meets reader context state post)
    (second_meets : Meets second context state post) :
    Meets (orElse reader second) context state post := by
  intro result after run
  unfold orElse at run
  split at run
  · rename_i step first_run
    exact first_meets result after (first_run.trans run)
  · exact second_meets result after run

/-- Trying to read leaves the state as it is when the text does not fit. -/
theorem meets_attempt {post : Option α → ReadState → Prop}
    (meets : Meets reader context state fun value => post (some value)) (none_fits : post none state) :
    Meets (attempt reader) context state post :=
  meets_orElse (meets_map meets) (meets_pure none_fits)

theorem meets_node {offset : Nat} {kind : NodeKind} {nodes : List Node}
    {post : Node → ReadState → Prop}
    (holds : post (.mk kind ⟨offset, state.lastStop⟩ nodes) state) :
    Meets (node offset kind nodes) context state post := by
  intro result after run
  obtain ⟨rfl, rfl⟩ := Prod.mk.inj (Except.ok.inj run)
  exact holds

theorem meets_unexpected : Meets (unexpected : Reader α) context state post := by
  intro result after run
  cases run

theorem meets_failAt {offset : Nat} : Meets (failAt offset : Reader α) context state post :=
  meets_throw

/-- What every round of a loop keeps holds at its end. -/
theorem meets_loop {step : σ → Reader (σ ⊕ α)} (invariant : σ → ReadState → Prop) {start : σ}
    (begins : invariant start state)
    (keeps : ∀ round state, invariant round state → Meets (step round) context state
      fun result after => match result with
        | .inl round => invariant round after
        | .inr value => post value after) :
    Meets (loop step start) context state post := by
  have rounds_meet : ∀ (rounds : Nat) (round : σ) (state : ReadState), invariant round state →
      Meets (loop.go step rounds round) context state post := by
    intro rounds
    induction rounds with
    | zero => exact fun _ _ _ => meets_unexpected
    | succ rounds ih =>
        intro round state holds
        refine meets_bind ((keeps round state holds).mono fun result after kept => ?_)
        cases result with
        | inl round => exact ih round after kept
        | inr value => exact meets_pure kept
  exact rounds_meet _ start state begins

/-! ### Looking at the state -/

/-- The token behind the one to be read next, if the text goes on with a token. -/
def secondToken (state : ReadState) : Option Token :=
  match Lexer.next state.token.span.stop state.token.after with
  | .error _ => none
  | .ok (second, _) => some second

theorem meets_get {next : ReadState → Reader β} (meets : Meets (next state) context state last) :
    Meets (get >>= next) context state last :=
  meets

theorem meets_startOffset {next : Nat → Reader β}
    (meets : Meets (next state.token.span.start) context state last) :
    Meets (startOffset >>= next) context state last :=
  meets

theorem meets_peek {next : Token → Reader β} (meets : Meets (next state.token) context state last) :
    Meets (peek >>= next) context state last :=
  meets

theorem meets_atSign {next : Bool → Reader β} {sign : String}
    (meets : Meets (next (isSign state.token sign)) context state last) :
    Meets (atSign sign >>= next) context state last :=
  meets

theorem meets_atWord {next : Bool → Reader β} {word : String}
    (meets : Meets (next (isWord state.token word)) context state last) :
    Meets (atWord word >>= next) context state last :=
  meets

theorem meets_peekSecond {next : Option Token → Reader β}
    (meets : Meets (next (secondToken state)) context state last) :
    Meets (peekSecond >>= next) context state last := by
  refine meets_bind ?_
  intro result after run
  have run_eq : peekSecond context state = .ok (secondToken state, state) := by
    unfold secondToken
    change (match Lexer.next state.token.span.stop state.token.after with
      | .error _ => (pure none : Reader (Option Token))
      | .ok (second, _) => pure (some second)) context state = _
    cases Lexer.next state.token.span.stop state.token.after <;> rfl
  obtain ⟨rfl, rfl⟩ := Prod.mk.inj (Except.ok.inj (run_eq.symm.trans run))
  exact meets

theorem meets_read {next : ReadContext → Reader β} (meets : Meets (next context) context state last) :
    Meets (read >>= next) context state last :=
  meets

theorem meets_modify {next : Unit → Reader β} {change : ReadState → ReadState}
    (meets : Meets (next ()) context (change state) last) :
    Meets (modify change >>= next) context state last :=
  meets

theorem meets_modify_only {change : ReadState → ReadState} {post : Unit → ReadState → Prop}
    (holds : post () (change state)) :
    Meets (modify change : Reader Unit) context state post := by
  intro result after run
  obtain ⟨rfl, rfl⟩ := Prod.mk.inj (Except.ok.inj run)
  exact holds

theorem meets_require {condition : Prop} [Decidable condition] {yes : Reader β}
    {no : α → Reader β} (meets : condition → Meets yes context state last) :
    Meets (if condition then yes else unexpected >>= no) context state last := by
  split
  · exact meets ‹_›
  · exact meets_bind meets_unexpected

theorem meets_forbid {condition : Prop} [Decidable condition] {yes : α → Reader β}
    {no : Reader β} (meets : ¬condition → Meets no context state last) :
    Meets (if condition then unexpected >>= yes else no) context state last := by
  split
  · exact meets_bind meets_unexpected
  · exact meets ‹_›

end Meets

/-! ## Trails -/

/-- The token to be read next and the end of the last one lie in the text, behind an offset from
which reading began. -/
structure Sound (text : List Char) (origin : Nat) (state : ReadState) : Prop where
  /-- The token has its place in the text. -/
  lies : state.token.LiesIn text
  /-- Reading goes on from the offset. -/
  origin_le : origin ≤ state.lastStop
  /-- The token comes behind the last one. -/
  lastStop_le : state.lastStop ≤ state.token.span.start
  /-- The last token ends with ink. -/
  ends : origin < state.lastStop → InkUpTo text state.lastStop

/-- The trees read since a state lie in a row behind it; `moved` tells that tokens were read. -/
structure Trail (text : List Char) (origin : Nat) (start : ReadState) (moved : Bool)
    (nodes : List Node) (state : ReadState) : Prop where
  /-- The state before was sound. -/
  before : Sound text origin start
  /-- The state is sound. -/
  sound : Sound text origin state
  /-- Reading goes ahead. -/
  lastStop_le : start.lastStop ≤ state.lastStop
  /-- So do the tokens to be read next. -/
  token_le : start.token.span.start ≤ state.token.span.start
  /-- The trees lie between the first token and the last one. -/
  row : InRow text start.token.span.start state.lastStop nodes
  /-- There is a token between them. -/
  ahead : moved → start.token.span.start < state.lastStop
  /-- They begin where tokens do that were read. -/
  roots : Lexer.Roots start.token nodes state.token

section Trails

variable {text : List Char} {origin : Nat} {start state after : ReadState} {moved further : Bool}
  {nodes others : List Node} {context : ReadContext} {kind : NodeKind}

theorem Trail.refl (sound : Sound text origin state) : Trail text origin state false [] state :=
  ⟨sound, sound, Nat.le_refl _, Nat.le_refl _, .nil, by simp, .nil (.here _)⟩

theorem Trail.weaken (trail : Trail text origin start moved nodes state) :
    Trail text origin start false nodes state :=
  { trail with ahead := by simp }

theorem Trail.trans (trail : Trail text origin start moved nodes state)
    (behind : Trail text origin state further others after) :
    Trail text origin start (moved || further) (nodes ++ others) after where
  before := trail.before
  sound := behind.sound
  lastStop_le := Nat.le_trans trail.lastStop_le behind.lastStop_le
  token_le := Nat.le_trans trail.token_le behind.token_le
  row := trail.row.append behind.row trail.sound.lastStop_le behind.lastStop_le trail.token_le
  ahead := by
    intro some_moved
    obtain moved | further := Bool.or_eq_true_iff.1 some_moved
    · exact Nat.lt_of_lt_of_le (trail.ahead moved) behind.lastStop_le
    · exact Nat.lt_of_le_of_lt trail.token_le (behind.ahead further)
  roots := trail.roots.trans behind.roots

/-- A trail does not depend on what is noted on the way. -/
theorem Trail.congr (trail : Trail text origin start moved nodes state)
    (token_eq : after.token = state.token) (stop_eq : after.lastStop = state.lastStop) :
    Trail text origin start moved nodes after := by
  obtain ⟨before, ⟨lies, origin_le, lastStop_le, ends⟩, start_le, token_le, row, ahead, roots⟩ :=
    trail
  rw [← token_eq] at lies lastStop_le token_le roots
  rw [← stop_eq] at origin_le lastStop_le ends start_le row ahead
  exact ⟨before, ⟨lies, origin_le, lastStop_le, ends⟩, start_le, token_le, row, ahead, roots⟩

/-- A trail with trees on it has moved. -/
theorem Trail.moves {node : Node} (trail : Trail text origin start moved nodes state)
    (member : node ∈ nodes) : Trail text origin start true nodes state :=
  { trail with
    ahead := fun _ => by
      have within := trail.row.within node member
      have proper := (trail.row.spaced node member).proper
      omega }

/-- From the first token to the last one there is ink at both ends. -/
theorem Trail.framed (trail : Trail text origin start true nodes state) :
    Framed text ⟨start.token.span.start, state.lastStop⟩ := by
  have ahead := trail.ahead rfl
  have begins_in := trail.before.origin_le
  have token_le := trail.before.lastStop_le
  have live : start.token.kind ≠ .finish := by
    intro finish
    have at_end := trail.before.lies.finished finish
    have inside := (trail.sound.ends (by omega)).le_width
    rw [at_end] at ahead
    exact absurd inside (Nat.not_le_of_lt ahead)
  exact ⟨(trail.before.lies.framed live).begins, trail.sound.ends (by omega), ahead⟩

/-- The tokens between the first one and the next one. -/
theorem Trail.passed (trail : Trail text origin start true nodes state) :
    start.token.span.start < state.token.span.start :=
  Nat.lt_of_lt_of_le (trail.ahead rfl) trail.sound.lastStop_le

/-- The node made of all trees on a trail. -/
theorem Trail.whole (trail : Trail text origin start true nodes state)
    (plain : kind.arrangement = .row) :
    Trail text origin start true [.mk kind ⟨start.token.span.start, state.lastStop⟩ nodes] state :=
  { trail with
    row := .single (trail.row.isSpaced trail.framed plain) (Nat.le_refl _) (Nat.le_refl _)
    roots := trail.roots.whole trail.before.lies trail.passed fun _ _ begin_in => begin_in }

theorem Trail.node (trail : Trail text origin start true nodes state)
    (plain : kind.arrangement = .row) :
    Meets (node start.token.span.start kind nodes) context state fun node after =>
      Trail text origin start false [node] after :=
  meets_node (trail.whole plain).weaken

/-- A trail with some of its trees left out. -/
theorem Trail.sublist (trail : Trail text origin start moved nodes state)
    (sub : others.Sublist nodes) : Trail text origin start moved others state :=
  { trail with
    row := trail.row.sublist sub
    roots := trail.roots.map fun _ begin_in node listed => begin_in node (sub.mem listed) }

theorem Trail.return (trail : Trail text origin start moved nodes state) :
    Meets (pure nodes) context state fun result after =>
      Trail text origin start moved result after :=
  meets_pure trail

end Trails

/-! ## Readers that go on with a trail -/

section Readers

variable (text : List Char) (origin : Nat)

/-- A reader that leaves trees in a row. -/
def Yields {α : Type} (part : α → List Node) (reader : Reader α) : Prop :=
  ∀ context state, Sound text origin state → Meets reader context state fun result after =>
    Trail text origin state false (part result) after

/-- A reader that leaves one tree. -/
def Gives (reader : Reader Node) : Prop :=
  Yields text origin (fun node => [node]) reader

/-- A reader that leaves no tree and may read nothing. -/
def Keeps {α : Type} (reader : Reader α) : Prop :=
  ∀ context state, Sound text origin state → Meets reader context state fun _ after =>
    Trail text origin state false [] after

/-- A reader that leaves no tree and reads a token at least. -/
def Takes {α : Type} (reader : Reader α) : Prop :=
  ∀ context state, Sound text origin state → Meets reader context state fun _ after =>
    Trail text origin state true [] after

end Readers

section Steps

variable {text : List Char} {origin : Nat} {start state : ReadState} {moved : Bool}
  {nodes : List Node} {context : ReadContext} {α β : Type} {reader : Reader α}
  {next : α → Reader β} {last : β → ReadState → Prop} {post : α → ReadState → Prop}

theorem Yields.meets {part : α → List Node} (yields : Yields text origin part reader)
    (trail : Trail text origin start moved nodes state)
    (rest : ∀ result after, Trail text origin start moved (nodes ++ part result) after →
      post result after) : Meets reader context state post := by
  refine (yields context state trail.sound).mono fun result after behind => rest result after ?_
  simpa using trail.trans behind

theorem Yields.bind {part : α → List Node} (yields : Yields text origin part reader)
    (trail : Trail text origin start moved nodes state)
    (rest : ∀ result after, Trail text origin start moved (nodes ++ part result) after →
      Meets (next result) context after last) : Meets (reader >>= next) context state last :=
  meets_bind (yields.meets trail rest)

/-- A tree read behind the others. -/
theorem Trail.meets {reader : Reader Node} {post : Node → ReadState → Prop}
    (trail : Trail text origin start moved nodes state)
    (reads : Meets reader context state fun node after => Trail text origin state false [node] after)
    (rest : ∀ node after, Trail text origin start true (nodes ++ [node]) after → post node after) :
    Meets reader context state post := by
  refine reads.mono fun node after behind => rest node after ?_
  simpa using trail.trans (behind.moves List.mem_cons_self)

theorem Trail.bind {reader : Reader Node} {next : Node → Reader β}
    (trail : Trail text origin start moved nodes state)
    (reads : Meets reader context state fun node after => Trail text origin state false [node] after)
    (rest : ∀ node after, Trail text origin start true (nodes ++ [node]) after →
      Meets (next node) context after last) : Meets (reader >>= next) context state last :=
  meets_bind (trail.meets reads rest)

theorem Gives.meets {reader : Reader Node} {post : Node → ReadState → Prop}
    (gives : Gives text origin reader) (trail : Trail text origin start moved nodes state)
    (rest : ∀ node after, Trail text origin start true (nodes ++ [node]) after → post node after) :
    Meets reader context state post :=
  trail.meets (gives context state trail.sound) rest

theorem Gives.bind {reader : Reader Node} {next : Node → Reader β} (gives : Gives text origin reader)
    (trail : Trail text origin start moved nodes state)
    (rest : ∀ node after, Trail text origin start true (nodes ++ [node]) after →
      Meets (next node) context after last) : Meets (reader >>= next) context state last :=
  trail.bind (gives context state trail.sound) rest

theorem Keeps.meets (keeps : Keeps text origin reader)
    (trail : Trail text origin start moved nodes state)
    (rest : ∀ result after, Trail text origin start moved nodes after → post result after) :
    Meets reader context state post := by
  refine (keeps context state trail.sound).mono fun result after behind => rest result after ?_
  simpa using trail.trans behind

theorem Keeps.bind (keeps : Keeps text origin reader)
    (trail : Trail text origin start moved nodes state)
    (rest : ∀ result after, Trail text origin start moved nodes after →
      Meets (next result) context after last) : Meets (reader >>= next) context state last :=
  meets_bind (keeps.meets trail rest)

theorem Takes.meets (takes : Takes text origin reader)
    (trail : Trail text origin start moved nodes state)
    (rest : ∀ result after, Trail text origin start true nodes after → post result after) :
    Meets reader context state post := by
  refine (takes context state trail.sound).mono fun result after behind => rest result after ?_
  simpa using trail.trans behind

theorem Takes.bind (takes : Takes text origin reader)
    (trail : Trail text origin start moved nodes state)
    (rest : ∀ result after, Trail text origin start true nodes after →
      Meets (next result) context after last) : Meets (reader >>= next) context state last :=
  meets_bind (takes.meets trail rest)

/-- A reader that leaves no tree, and that is left out under a condition. -/
theorem Keeps.unless {condition : Prop} [Decidable condition] {value : α}
    (keeps : Keeps text origin reader) (trail : Trail text origin start moved nodes state)
    (rest : ∀ result after, Trail text origin start moved nodes after →
      Meets (next result) context after last) :
    Meets (if condition then pure value >>= next else reader >>= next) context state last := by
  split
  · exact meets_bind (meets_pure (rest value state trail))
  · exact keeps.bind trail rest

theorem Keeps.when {condition : Prop} [Decidable condition] {value : α}
    (keeps : Keeps text origin reader) (trail : Trail text origin start moved nodes state)
    (rest : ∀ result after, Trail text origin start moved nodes after →
      Meets (next result) context after last) :
    Meets (if condition then reader >>= next else pure value >>= next) context state last := by
  split
  · exact keeps.bind trail rest
  · exact meets_bind (meets_pure (rest value state trail))

/-- A tree that is left only under a condition. -/
theorem Gives.optional {reader : Reader Node} {condition : Prop} [Decidable condition]
    {next : List Node → Reader β} (gives : Gives text origin reader)
    (trail : Trail text origin start true nodes state)
    (rest : ∀ part after, Trail text origin start true (nodes ++ part) after →
      Meets (next part) context after last) :
    Meets (if condition then (do let node ← reader; let part ← pure [node]; next part)
      else (do let part ← pure []; next part)) context state last := by
  split
  · exact gives.bind trail fun node after behind => meets_bind (meets_pure (rest [node] after behind))
  · exact meets_bind (meets_pure (rest [] state (by simpa using trail)))

/-- Taking notes is no reading. -/
theorem keeps_modify {change : ReadState → ReadState}
    (token_eq : ∀ state, (change state).token = state.token := by intro _; rfl)
    (stop_eq : ∀ state, (change state).lastStop = state.lastStop := by intro _; rfl) :
    Keeps text origin (modify change : Reader Unit) :=
  fun _ state sound => meets_modify_only
    ((Trail.refl sound).congr (token_eq state) (stop_eq state))

theorem Takes.keeps (takes : Takes text origin reader) : Keeps text origin reader :=
  fun context state sound => (takes context state sound).mono fun _ _ trail => trail.weaken

/-! ### One token -/

theorem isSign_iff {token : Token} {sign : String} :
    isSign token sign ↔ token.kind = .sign sign := by
  simp [isSign]

theorem isWord_iff {token : Token} {word : String} :
    isWord token word ↔ token.kind = .word word false := by
  simp [isWord]

/-- A token that is not the end of the text can be passed. -/
theorem meets_advance {post : Unit → ReadState → Prop} (sound : Sound text origin state)
    (live : state.token.kind ≠ .finish)
    (rest : ∀ after, Trail text origin state true [] after →
      after.lastStop = state.token.span.stop → secondToken state = some after.token →
      post () after) : Meets advance context state post := by
  intro result after run
  have framed := sound.lies.framed live
  have proper := framed.proper
  have run_eq : advance context state =
      match Lexer.next state.token.span.stop state.token.after with
      | .error fault => .error fault
      | .ok (token, comments) => .ok ((), { state with
          token
          lastStop := state.token.span.stop
          comments := comments ++ state.comments }) := by
    change (match Lexer.next state.token.span.stop state.token.after with
      | .error fault => (throw fault : Reader Unit)
      | .ok (token, comments) => set { state with
          token
          lastStop := state.token.span.stop
          comments := comments ++ state.comments }) context state = _
    cases Lexer.next state.token.span.stop state.token.after <;> rfl
  rw [run_eq] at run
  split at run
  · cases run
  · rename_i token comments lexed
    obtain ⟨-, rfl⟩ := Prod.mk.inj (Except.ok.inj run)
    obtain ⟨lies, behind⟩ := Lexer.next_liesIn sound.lies.left lexed
    have lastStop_le := sound.lastStop_le
    have origin_le := sound.origin_le
    refine rest _ ?_ rfl ?_
    · exact
        { before := sound
          sound :=
            { lies
              origin_le := by
                show origin ≤ state.token.span.stop
                omega
              lastStop_le := behind
              ends := fun _ => framed.ends }
          lastStop_le := by
            show state.lastStop ≤ state.token.span.stop
            omega
          token_le := by
            show state.token.span.start ≤ token.span.start
            omega
          row := .nil
          ahead := fun _ => proper
          roots := .nil (.pass live lexed (.here token)) }
    · simp only [secondToken, lexed]

theorem Trail.meets_advance {post : Unit → ReadState → Prop}
    (trail : Trail text origin start moved nodes state) (live : state.token.kind ≠ .finish)
    (rest : ∀ after, Trail text origin start true nodes after →
      after.lastStop = state.token.span.stop → secondToken state = some after.token →
      post () after) : Meets advance context state post := by
  refine Reader.meets_advance trail.sound live fun after behind stop_eq second_eq => ?_
  refine rest after ?_ stop_eq second_eq
  simpa using trail.trans behind

theorem Trail.advance {next : Unit → Reader β} (trail : Trail text origin start moved nodes state)
    (live : state.token.kind ≠ .finish)
    (rest : ∀ after, Trail text origin start true nodes after →
      Meets (next ()) context after last) : Meets (advance >>= next) context state last :=
  meets_bind (trail.meets_advance live fun after behind _ _ => rest after behind)

theorem Trail.meets_takeSign {post : Bool → ReadState → Prop} {sign : String}
    (trail : Trail text origin start moved nodes state)
    (taken : isSign state.token sign → ∀ after, Trail text origin start true nodes after →
      after.lastStop = state.token.span.stop → post true after)
    (left : post false state) : Meets (takeSign sign) context state post := by
  refine meets_atSign ?_
  split
  · rename_i is_sign
    have live : state.token.kind ≠ .finish := by simp [isSign_iff.1 is_sign]
    refine meets_bind (trail.meets_advance live fun after behind stop_eq _ => ?_)
    exact meets_pure (taken is_sign after behind stop_eq)
  · exact meets_pure left

theorem Trail.meets_takeWord {post : Bool → ReadState → Prop} {word : String}
    (trail : Trail text origin start moved nodes state)
    (taken : ∀ after, Trail text origin start true nodes after → post true after)
    (left : post false state) : Meets (takeWord word) context state post := by
  refine meets_atWord ?_
  split
  · rename_i is_word
    have live : state.token.kind ≠ .finish := by simp [isWord_iff.1 is_word]
    refine meets_bind (trail.meets_advance live fun after behind _ _ => ?_)
    exact meets_pure (taken after behind)
  · exact meets_pure left

theorem keeps_takeSign {sign : String} : Keeps text origin (takeSign sign) :=
  fun _ _ sound => (Trail.refl sound).meets_takeSign (fun _ _ trail _ => trail.weaken)
    (Trail.refl sound)

theorem keeps_takeWord {word : String} : Keeps text origin (takeWord word) :=
  fun _ _ sound => (Trail.refl sound).meets_takeWord (fun _ trail => trail.weaken)
    (Trail.refl sound)

/-- A sign that may come next. -/
theorem Trail.takeSign {sign : String} {yes no : Reader β}
    (trail : Trail text origin start moved nodes state)
    (taken : ∀ after, Trail text origin start true nodes after → Meets yes context after last)
    (left : Meets no context state last) :
    Meets (takeSign sign >>= fun taken => if taken = true then yes else no) context state last :=
  meets_bind (trail.meets_takeSign (fun _ after behind _ => by simpa using taken after behind)
    (by simpa using left))

theorem Trail.takeWord {word : String} {yes no : Reader β}
    (trail : Trail text origin start moved nodes state)
    (taken : ∀ after, Trail text origin start true nodes after → Meets yes context after last)
    (left : Meets no context state last) :
    Meets (takeWord word >>= fun taken => if taken = true then yes else no) context state last :=
  meets_bind (trail.meets_takeWord (fun after behind => by simpa using taken after behind)
    (by simpa using left))

theorem Trail.meets_expectSign {sign : String} {post : Unit → ReadState → Prop}
    (trail : Trail text origin start moved nodes state)
    (rest : isSign state.token sign → ∀ after, Trail text origin start true nodes after →
      after.lastStop = state.token.span.stop → post () after) :
    Meets (expectSign sign) context state post := by
  refine meets_bind (trail.meets_takeSign (fun is_sign after behind stop_eq => ?_) ?_)
  · exact meets_pure (rest is_sign after behind stop_eq)
  · exact meets_unexpected

theorem takes_expectSign {sign : String} : Takes text origin (expectSign sign) :=
  fun _ _ sound => (Trail.refl sound).meets_expectSign fun _ _ trail _ => trail

theorem takes_expectWord {word : String} : Takes text origin (expectWord word) :=
  fun _ _ sound => meets_bind ((Trail.refl sound).meets_takeWord
    (fun _ trail => meets_pure trail) meets_unexpected)

/-- A sign that has to come next. -/
theorem Trail.expectSign {sign : String} {next : Unit → Reader β}
    (trail : Trail text origin start moved nodes state)
    (rest : ∀ after, Trail text origin start true nodes after →
      Meets (next ()) context after last) : Meets (expectSign sign >>= next) context state last :=
  takes_expectSign.bind trail fun _ => rest

theorem Trail.expectWord {word : String} {next : Unit → Reader β}
    (trail : Trail text origin start moved nodes state)
    (rest : ∀ after, Trail text origin start true nodes after →
      Meets (next ()) context after last) : Meets (expectWord word >>= next) context state last :=
  takes_expectWord.bind trail fun _ => rest

/-! ### A token as a tree -/

/-- A leaf in the place of the only token read. -/
theorem Trail.leaf {kind : NodeKind} (trail : Trail text origin start true [] state)
    (stop_eq : state.lastStop = start.token.span.stop) (framed : Framed text start.token.span)
    (plain : kind.arrangement = .row) :
    Trail text origin start true [.mk kind start.token.span []] state :=
  { trail with
    row := .single (.leaf framed plain) (Nat.le_refl _) (by rw [stop_eq]; exact Nat.le_refl _)
    roots := trail.roots.whole trail.before.lies trail.passed fun _ _ _ => nofun }

/-- Passing a token that is a tree by itself. -/
theorem Trail.advance_leaf {kind : NodeKind} {next : Unit → Reader β}
    (trail : Trail text origin start moved nodes state) (live : state.token.kind ≠ .finish)
    (plain : kind.arrangement = .row)
    (rest : ∀ after, Trail text origin start true (nodes ++ [.mk kind state.token.span []]) after →
      Meets (next ()) context after last) : Meets (Reader.advance >>= next) context state last := by
  refine meets_bind (Reader.meets_advance trail.sound live fun after behind stop_eq _ => ?_)
  have leaf := behind.leaf stop_eq (trail.sound.lies.framed live) plain
  exact rest after (by simpa using trail.trans leaf)

/-- A node whose first part is a word that the part behind it takes up again. -/
theorem Trail.shorthand {kind key : NodeKind} {value : Node}
    (trail : Trail text origin start true (value :: nodes) state)
    (framed : Framed text start.token.span) (named : kind.arrangement = .named)
    (key_plain : key.arrangement = .row) (taken : value.span.covers start.token.span) :
    Meets (Reader.node start.token.span.start kind (.mk key start.token.span [] :: value :: nodes))
      context state fun node after => Trail text origin start false [node] after := by
  refine meets_node ?_
  have taken_up := Span.covers_iff.1 taken
  have value_within := trail.row.within value List.mem_cons_self
  have spaced := trail.row.isSpaced_named trail.framed named (.leaf framed key_plain)
    (Span.covers_iff.2 ⟨Nat.le_refl _, Nat.le_trans taken_up.2 value_within.2⟩) (by
      refine List.forall_mem_cons.2 ⟨.inr ⟨rfl, taken⟩, fun other member => .inl ?_⟩
      have behind := (List.pairwise_cons.1 trail.row.ordered).1 other member
      exact Nat.le_trans taken_up.2 behind)
  exact
    { trail.weaken with
      row := .single spaced (Nat.le_refl _) (Nat.le_refl _)
      roots := trail.roots.whole trail.before.lies trail.passed fun _ first begin_in =>
        List.forall_mem_cons.2 ⟨beginsIn_iff.2 ⟨first, nofun⟩, begin_in⟩ }

/-! ### Names and keys -/

/-- Checking a name only takes notes. -/
theorem meets_checkName {name : String} {offset : Nat} {post : Unit → ReadState → Prop}
    (rest : ∀ after, after.token = state.token → after.lastStop = state.lastStop → post () after) :
    Meets (checkName name offset) context state post := by
  refine meets_read ?_
  dsimp only
  split
  · exact meets_bind meets_failAt
  split
  · exact meets_bind meets_failAt
  split
  · exact meets_modify_only (rest _ rfl rfl)
  · exact meets_pure (rest _ rfl rfl)

/-- A name is the token that came next. -/
theorem Trail.meets_name {post : String → ReadState → Prop}
    (trail : Trail text origin start moved nodes state)
    (rest : ∀ name after, Trail text origin start true nodes after →
      after.lastStop = state.token.span.stop → Framed text state.token.span → post name after) :
    Meets name context state post := by
  refine meets_peek ?_
  split
  · rename_i word isEscaped kind_eq
    have live : state.token.kind ≠ .finish := by simp [kind_eq]
    refine meets_forbid fun _ => meets_bind (meets_checkName fun noted token_eq stop_eq => ?_)
    have noted_trail := trail.congr token_eq stop_eq
    refine meets_bind (noted_trail.meets_advance (token_eq ▸ live) fun after behind end_eq _ => ?_)
    rw [token_eq] at end_eq
    exact meets_pure (rest word after behind end_eq (trail.sound.lies.framed live))
  · exact meets_unexpected

theorem takes_name : Takes text origin name :=
  fun _ _ sound => (Trail.refl sound).meets_name fun _ _ trail _ _ => trail

theorem gives_reference : Gives text origin reference := by
  intro context start sound
  refine meets_startOffset (takes_name.bind (.refl sound) fun _ state trail => ?_)
  exact trail.node rfl

theorem gives_binding : Gives text origin binding := by
  intro context start sound
  refine meets_startOffset (takes_name.bind (.refl sound) fun _ state trail => ?_)
  exact trail.node rfl

theorem takes_word : Takes text origin word := by
  intro context start sound
  refine meets_peek ?_
  split
  · rename_i word isEscaped kind_eq
    exact (Trail.refl sound).advance (by simp [kind_eq]) fun state trail => meets_pure trail
  · exact meets_unexpected

theorem takes_stringValue : Takes text origin stringValue := by
  intro context start sound
  refine meets_peek ?_
  split
  · rename_i value raw kind_eq
    exact (Trail.refl sound).advance (by simp [kind_eq]) fun state trail => meets_pure trail
  · exact meets_unexpected

theorem gives_literalKey : Gives text origin literalKey := by
  intro context start sound
  have trail := Trail.refl sound
  refine meets_peek ?_
  split
  · rename_i kind_eq
    exact trail.advance (by simp [kind_eq]) fun state trail => trail.node rfl
  · rename_i kind_eq
    exact trail.advance (by simp [kind_eq]) fun state trail => trail.node rfl
  · rename_i kind_eq
    exact trail.advance (by simp [kind_eq]) fun state trail => trail.node rfl
  · exact meets_unexpected

theorem keeps_semicolon : Keeps text origin semicolon := by
  intro context start sound
  have trail := Trail.refl sound
  refine trail.takeSign (fun state trail => meets_pure trail.weaken) (meets_peek ?_)
  split
  · exact meets_pure trail
  · exact meets_unexpected

theorem Yields.within {part : α → List Node} {change : ReadContext → ReadContext}
    (yields : Yields text origin part reader) : Yields text origin part (within change reader) :=
  fun context state sound => meets_within (yields (change context) state sound)

theorem Gives.within {reader : Reader Node} {change : ReadContext → ReadContext}
    (gives : Gives text origin reader) : Gives text origin (within change reader) :=
  Yields.within gives

theorem Gives.bracketed {reader : Reader Node} (gives : Gives text origin reader) :
    Gives text origin (bracketed reader) :=
  gives.within

/-! ### Lists -/

/-- A list that a sign closes: its elements lie in a row before the sign. -/
structure Closed (text : List Char) (origin : Nat) (start : ReadState) (close : String)
    (nodes : List Node) (after : ReadState) : Prop where
  /-- What was read before the sign. -/
  inside : ∃ state, Trail text origin start false nodes state ∧ isSign state.token close ∧
    after.lastStop = state.token.span.stop
  /-- What was read with it. -/
  trail : Trail text origin start true nodes after

/-- A reader of a list that a sign closes. -/
def Closes (text : List Char) (origin : Nat) (close : String) (reader : Reader (List Node)) : Prop :=
  ∀ context state, Sound text origin state → Meets reader context state fun nodes after =>
    Closed text origin state close nodes after

theorem Closes.within {close : String} {reader : Reader (List Node)}
    {change : ReadContext → ReadContext} (closes : Closes text origin close reader) :
    Closes text origin close (within change reader) :=
  fun context state sound => meets_within (closes (change context) state sound)

theorem Closes.yields {close : String} {reader : Reader (List Node)}
    (closes : Closes text origin close reader) :
    Yields text origin (fun nodes => nodes) reader :=
  fun context state sound => (closes context state sound).mono fun _ _ closed =>
    closed.trail.weaken

/-- The sign that closes a list, or what comes before it. -/
theorem Trail.takeClose {close : String} {yes no : Reader β}
    (trail : Trail text origin start moved nodes state)
    (taken : ∀ after, Closed text origin start close nodes after → Meets yes context after last)
    (left : Meets no context state last) :
    Meets (Reader.takeSign close >>= fun taken => if taken = true then yes else no) context state
      last := by
  refine meets_bind (trail.meets_takeSign (fun is_sign after behind stop_eq => ?_) ?_)
  · simpa using taken after ⟨⟨state, trail.weaken, is_sign, stop_eq⟩, behind⟩
  · simpa using left

theorem closes_commaList {close : String} {item : Reader Node} (gives : Gives text origin item) :
    Closes text origin close (commaList close item) := by
  intro context start sound
  refine meets_loop (fun items state => Trail text origin start false items state) (.refl sound) ?_
  intro items state trail
  refine trail.takeClose (fun state closed => meets_pure closed) ?_
  refine gives.bind trail fun item state trail => meets_atSign ?_
  dsimp only
  split
  · exact meets_pure trail.weaken
  · exact trail.expectSign fun state trail => meets_pure trail.weaken

/-- A list is made of what is between its brackets. -/
theorem Trail.list {opening close : String} {after : ReadState} {kind : NodeKind}
    (opens : isSign start.token opening) (narrow : Text.width opening.toList = 1)
    (also_narrow : Text.width close.toList = 1) (arranged : kind.arrangement = .list)
    (trail : Trail text origin start true [] state)
    (stop_eq : state.lastStop = start.token.span.stop)
    (closed : Closed text origin state close nodes after) :
    Meets (Reader.node start.token.span.start kind nodes) context after fun node after =>
      Trail text origin start false [node] after := by
  refine meets_node ?_
  have whole : Trail text origin start true nodes after := by simpa using trail.trans closed.trail
  obtain ⟨last, inside, closes, end_eq⟩ := closed.inside
  obtain ⟨-, open_stop⟩ := trail.before.lies.sign opening (isSign_iff.1 opens)
  obtain ⟨left, close_stop⟩ := inside.sound.lies.sign close (isSign_iff.1 closes)
  have behind := inside.before.lastStop_le
  have before := inside.sound.lastStop_le
  have ahead := inside.token_le
  have opening_boundary := (trail.before.lies.left).isBoundary
  have closing_boundary := left.isBoundary
  have row : InRow text (start.token.span.start + 1) (after.lastStop - 1) nodes :=
    inside.row.mono (by omega) (by omega)
  have spaced : (Node.mk kind ⟨start.token.span.start, after.lastStop⟩ nodes).IsSpaced text := by
    refine row.isSpaced_list whole.framed arranged ?_ ?_ ?_
    · show IsBoundary text (start.token.span.start + 1)
      rwa [open_stop, narrow] at opening_boundary
    · show IsBoundary text (after.lastStop - 1)
      have start_eq : after.lastStop - 1 = last.token.span.start := by omega
      rwa [start_eq]
    · show start.token.span.start + 2 ≤ after.lastStop
      omega
  exact
    { whole.weaken with
      row := .single spaced (Nat.le_refl _) (Nat.le_refl _)
      roots := whole.roots.whole whole.before.lies whole.passed fun _ _ begin_in => begin_in }

end Steps

/-- The productions of a grammar each leave one tree. -/
structure Nests (text : List Char) (origin : Nat) (grammar : Grammar) : Prop where
  assignment : Gives text origin grammar.assignment
  unary : Gives text origin grammar.unary
  leftHand : Gives text origin grammar.leftHand
  callee : Gives text origin grammar.callee
  pattern : Gives text origin grammar.pattern
  statement : ∀ isSingle, Gives text origin (grammar.statement isSingle)

theorem Nests.propertyKey {text : List Char} {origin : Nat} {grammar : Grammar}
    (nests : Nests text origin grammar) :
    Yields text origin (fun key => [key.1]) (propertyKey grammar) := by
  intro context start sound
  have trail := Trail.refl sound
  refine trail.takeSign (fun state trail => ?_) ?_
  · refine nests.assignment.bracketed.bind trail fun key state trail => ?_
    exact trail.expectSign fun state trail => meets_pure trail.weaken
  · exact gives_literalKey.bind trail fun key state trail => meets_pure trail.weaken

end Reader
end Shakedown
