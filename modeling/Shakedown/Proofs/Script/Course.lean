import Shakedown.Proofs.Script.Lexing
import Shakedown.Proofs.Script.Regrouping

/-!
# The course of reading

Reading passes tokens one behind the other. A token is read where the one before it ends, and may be
read once more as a regular expression or as a piece of a template before it is passed. Each tree begins
where a token does that is passed. Grouping trees anew makes no new beginning: a row of operands begins
with its first one, and a pattern where the expression does that it was read as.
-/

namespace Shakedown

/-! ## Where trees begin -/

namespace Node

/-- All nodes of a tree begin at one of the offsets. -/
def BeginsIn (offsets : List Nat) (node : Node) : Prop :=
  ∀ inner ∈ node.nodes, inner.span.start ∈ offsets

variable {offsets wider : List Nat} {kind : NodeKind} {span : Span} {children : List Node}
  {node target : Node}

theorem beginsIn_iff : (mk kind span children).BeginsIn offsets ↔
    span.start ∈ offsets ∧ ∀ child ∈ children, child.BeginsIn offsets := by
  constructor
  · exact fun all => ⟨all _ (mem_nodes.2 (.inl rfl)), fun child listed inner below =>
      all inner (mem_nodes.2 (.inr ⟨child, listed, below⟩))⟩
  · rintro ⟨own, all⟩ inner below
    obtain rfl | ⟨child, listed, below⟩ := mem_nodes.1 below
    · exact own
    · exact all child listed inner below

namespace BeginsIn

theorem mono (begins : node.BeginsIn offsets) (sub : offsets ⊆ wider) : node.BeginsIn wider :=
  fun inner below => sub (begins inner below)

theorem simpleTarget? (begins : node.BeginsIn offsets) (found : node.simpleTarget? = some target) :
    target.BeginsIn offsets := by
  induction node using Node.induction with
  | step kind span children ih =>
      unfold Node.simpleTarget? at found
      split at found
      · rename_i inner node_eq
        obtain ⟨rfl, rfl, rfl⟩ := Node.mk.inj node_eq
        exact ih inner List.mem_cons_self ((beginsIn_iff.1 begins).2 inner List.mem_cons_self) found
      · rename_i node_eq
        obtain ⟨rfl, rfl, rfl⟩ := Node.mk.inj node_eq
        have kept : Node.mk kind span children = target := by
          split at found <;> simp_all
        exact kept ▸ begins

/-- The same children under another kind. -/
theorem rename {other : NodeKind} (begins : (mk kind span children).BeginsIn offsets) :
    (mk other span children).BeginsIn offsets :=
  beginsIn_iff.2 (beginsIn_iff.1 begins)

end BeginsIn

theorem beginsIn_patternOf? {other : NodeKind} {turn : Node → Option Node} (own : span.start ∈ offsets)
    (each : ∀ child ∈ children, ∀ part, turn child = some part → part.BeginsIn offsets)
    (found : patternOf? other span (children.mapM turn) = some target) :
    target.BeginsIn offsets := by
  obtain ⟨parts, parts_eq, found⟩ := Option.bind_eq_some_iff.1 found
  split at found
  · contradiction
  · obtain rfl := Option.some.inj found
    exact beginsIn_iff.2 ⟨own, holds_mapM each parts_eq⟩

theorem beginsIn_literal (begins : node.BeginsIn offsets)
    (elements : ∀ child ∈ node.children, ∀ part, child.elementTarget? = some part →
      part.BeginsIn offsets)
    (members : ∀ child ∈ node.children, ∀ part, child.memberTarget? = some part →
      part.BeginsIn offsets)
    (found : node.target? = some target) : target.BeginsIn offsets := by
  unfold target? at found
  split at found
  · rw [elementTargets?_eq] at found
    exact beginsIn_patternOf? (beginsIn_iff.1 begins).1 elements found
  · rw [memberTargets?_eq] at found
    exact beginsIn_patternOf? (beginsIn_iff.1 begins).1 members found
  · exact Option.some.inj found ▸ begins
  · exact Option.some.inj found ▸ begins
  · exact begins.simpleTarget? found

/-- Whatever is read as the target of an assignment begins where the expression does, and so do its
parts. -/
theorem beginsIn_targets (node : Node) : node.BeginsIn offsets →
    (∀ target, node.target? = some target → target.BeginsIn offsets) ∧
    (∀ target, node.elementTarget? = some target → target.BeginsIn offsets) ∧
    (∀ target, node.memberTarget? = some target → target.BeginsIn offsets) := by
  induction node using Node.induction with
  | step kind span children ih =>
      intro begins
      obtain ⟨own, below⟩ := beginsIn_iff.1 begins
      have of_child : ∀ child ∈ children, _ := fun child listed => ih child listed (below child listed)
      have targets : ∀ target, (mk kind span children).target? = some target →
          target.BeginsIn offsets := fun target found =>
        beginsIn_literal begins (fun child listed => (of_child child listed).2.1)
          (fun child listed => (of_child child listed).2.2) found
      refine ⟨targets, fun target found => ?_, fun target found => ?_⟩
      · obtain rfl | ⟨span, children, node_eq, rfl⟩ | ⟨span, inner, part, node_eq, part_eq, rfl⟩ |
          found := elementTarget?_cases found
        · exact begins
        · obtain ⟨rfl, rfl, rfl⟩ := Node.mk.inj node_eq
          exact begins.rename
        · obtain ⟨rfl, rfl, rfl⟩ := Node.mk.inj node_eq
          have part_begins := (of_child inner List.mem_cons_self).1 part part_eq
          exact beginsIn_iff.2 ⟨own, List.forall_mem_singleton.2 part_begins⟩
        · exact targets target found
      · unfold memberTarget? at found
        split at found
        · rename_i isComputed memberSpan key value node_eq
          obtain ⟨rfl, rfl, rfl⟩ := Node.mk.inj node_eq
          obtain ⟨part, part_eq, rfl⟩ := Option.map_eq_some_iff.1 found
          have part_begins := (of_child value (by simp)).2.1 part part_eq
          exact beginsIn_iff.2 ⟨own, by simp [below key List.mem_cons_self, part_begins]⟩
        · rename_i isComputed memberSpan members node_eq
          obtain ⟨rfl, rfl, rfl⟩ := Node.mk.inj node_eq
          exact Option.some.inj found ▸ begins.rename
        · rename_i memberSpan key name standard node_eq
          obtain ⟨rfl, rfl, rfl⟩ := Node.mk.inj node_eq
          obtain rfl := Option.some.inj found
          have pattern : (mk .withDefault span [name, standard]).BeginsIn offsets :=
            beginsIn_iff.2 ⟨own, fun child listed => below child (List.mem_cons_of_mem _ listed)⟩
          exact beginsIn_iff.2 ⟨own, by simp [below key List.mem_cons_self, pattern]⟩
        · rename_i memberSpan inner node_eq
          obtain ⟨rfl, rfl, rfl⟩ := Node.mk.inj node_eq
          obtain ⟨part, part_eq, rfl⟩ := Option.map_eq_some_iff.1 found
          have part_begins := (below inner List.mem_cons_self).simpleTarget? part_eq
          exact beginsIn_iff.2 ⟨own, List.forall_mem_singleton.2 part_begins⟩
        · contradiction

theorem BeginsIn.target? (begins : node.BeginsIn offsets) (found : node.target? = some target) :
    target.BeginsIn offsets :=
  (beginsIn_targets node begins).1 target found

/-- An operator begins with its left operand. -/
theorem BeginsIn.binary {name : String} {left right : Node} (left_begins : left.BeginsIn offsets)
    (right_begins : right.BeginsIn offsets) :
    (mk (.binary name) ⟨left.span.start, right.span.stop⟩ [left, right]).BeginsIn offsets :=
  beginsIn_iff.2 ⟨left_begins left (mem_nodes.2 (.inl rfl)), by simp [left_begins, right_begins]⟩

end Node

/-! ## What is passed -/

namespace Lexer

open Text

/-- One token is read in the place of another one. -/
inductive Reread : Token → Token → Prop
  /-- A slash begins a regular expression. -/
  | regex {slash token : Token} : slash.kind = .sign "/" ∨ slash.kind = .sign "/=" →
      regexAt slash = .ok token → Reread slash token
  /-- A brace closes a substitution in a template. -/
  | template {brace token : Token} : brace.kind = .sign "\x7d" → templateAt brace = .ok token →
      Reread brace token

/-- Tokens passed between the token that came next and the one that comes next afterwards. -/
inductive Course : Token → List Token → Token → Prop
  /-- No token is passed. -/
  | here (token : Token) : Course token [] token
  /-- The token is read once more. -/
  | again {token other last : Token} {taken : List Token} : Reread token other →
      Course other taken last → Course token taken last
  /-- The token is passed. -/
  | pass {token second last : Token} {taken : List Token} {comments : List Span} :
      token.kind ≠ .finish → next token.span.stop token.after = .ok (second, comments) →
      Course second taken last → Course token (token :: taken) last

variable {text : List Char} {token other last : Token} {taken further : List Token}

theorem Reread.liesIn (reread : Reread token other) (lies : token.LiesIn text) :
    other.LiesIn text ∧ other.span.start = token.span.start ∧ other.kind ≠ .finish := by
  cases reread with
  | regex _ lexed => exact regexAt_liesIn lies lexed
  | template is_brace lexed => exact templateAt_liesIn lies is_brace lexed

namespace Course

theorem trans {middle : Token} (course : Course token taken middle)
    (behind : Course middle further last) : Course token (taken ++ further) last := by
  induction course with
  | here => exact behind
  | again reread _ ih => exact .again reread (ih behind)
  | pass live lexed _ ih => exact .pass live lexed (ih behind)

/-- All tokens lie in the text. -/
theorem liesIn (course : Course token taken last) (lies : token.LiesIn text) :
    ∀ passed ∈ taken, passed.LiesIn text := by
  induction course with
  | here => exact nofun
  | again reread _ ih => exact ih (reread.liesIn lies).1
  | pass _ lexed _ ih => exact List.forall_mem_cons.2 ⟨lies, ih (next_liesIn lies.left lexed).1⟩

/-- A token that reading is ahead of was passed, perhaps after it was read once more. -/
theorem start_mem (course : Course token taken last) (lies : token.LiesIn text)
    (ahead : token.span.start < last.span.start) :
    token.span.start ∈ taken.map (·.span.start) := by
  induction course with
  | here => exact absurd ahead (Nat.lt_irrefl _)
  | again reread _ ih =>
      obtain ⟨other_lies, start_eq, -⟩ := reread.liesIn lies
      rw [← start_eq]
      exact ih other_lies (start_eq ▸ ahead)
  | pass => exact List.mem_cons_self

end Course

/-- The trees begin where a token does that is passed between the token that came next and the one
that comes next afterwards. -/
def Roots (token : Token) (nodes : List Node) (last : Token) : Prop :=
  ∃ taken, Course token taken last ∧
    ∀ node ∈ nodes, node.BeginsIn (taken.map (·.span.start))

namespace Roots

variable {nodes others : List Node}

theorem nil (course : Course token taken last) : Roots token [] last :=
  ⟨taken, course, List.forall_mem_nil _⟩

theorem trans {middle : Token} (roots : Roots token nodes middle)
    (behind : Roots middle others last) : Roots token (nodes ++ others) last := by
  obtain ⟨taken, course, begin_in⟩ := roots
  obtain ⟨further, course', begin_in'⟩ := behind
  refine ⟨taken ++ further, course.trans course', List.forall_mem_append.2 ⟨?_, ?_⟩⟩
  · exact fun node listed => (begin_in node listed).mono (by simp)
  · exact fun node listed => (begin_in' node listed).mono (by simp)

/-- Trees that begin where the others do. -/
theorem map (roots : Roots token nodes last)
    (kept : ∀ offsets, (∀ node ∈ nodes, node.BeginsIn offsets) →
      ∀ node ∈ others, node.BeginsIn offsets) : Roots token others last := by
  obtain ⟨taken, course, begin_in⟩ := roots
  exact ⟨taken, course, kept _ begin_in⟩

/-- A tree that begins with the first token, and whose parts begin where the others do. -/
theorem whole {kind : NodeKind} {stop : Nat} {children : List Node} (roots : Roots token nodes last)
    (lies : token.LiesIn text) (ahead : token.span.start < last.span.start)
    (kept : ∀ offsets, token.span.start ∈ offsets → (∀ node ∈ nodes, node.BeginsIn offsets) →
      ∀ child ∈ children, child.BeginsIn offsets) :
    Roots token [.mk kind ⟨token.span.start, stop⟩ children] last := by
  obtain ⟨taken, course, begin_in⟩ := roots
  have first := course.start_mem lies ahead
  exact ⟨taken, course, List.forall_mem_singleton.2
    (Node.beginsIn_iff.2 ⟨first, kept _ first begin_in⟩)⟩

end Roots

/-! ## Whole texts -/

/-- Where reading begins: behind the line that names an interpreter, if the text has one. -/
def opening (text : List Char) : Nat × List Char :=
  match hashbang? text with
  | some (line, rest) => (line.stop, rest)
  | none => (0, text)

/-- The tokens are those that reading a whole text passes, and the end of the text. -/
def Tokenizes (text : List Char) (tokens : List Token) : Prop :=
  ∃ first comments taken last, next (opening text).1 (opening text).2 = .ok (first, comments) ∧
    Course first taken last ∧ last.kind = .finish ∧ tokens = taken ++ [last]

end Lexer
end Shakedown
