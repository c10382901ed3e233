import Shakedown.Batch
import Shakedown.Proofs.Cache.Entry
import Shakedown.Proofs.Disk

/-!
# Runs with a cache

A result from a cache is the result of the run that it stands for. Whatever else happens to the
other files in between, each entry keeps what a run over its text and options gives, and no other
text or options lead to it.
-/

namespace Shakedown

/-! ## Requests -/

namespace Cache

/-- A file to optimize, where its result goes, and what the caller chose. -/
structure Request where
  input : String
  output : String
  choice : RunOptions

/-- The options of a request. -/
def Request.options (request : Request) : Options :=
  Batch.fileOptions request.input request.output request.choice

/-- Whether a location is one of a file of a cache. -/
def IsPlace (directory : String) (location : Location) : Prop :=
  ∃ name, location = Path.components directory ++ [name]

theorem isPlace_iff {directory : String} {location : Location} :
    IsPlace directory location ↔
      location ≠ [] ∧ location.dropLast = Path.components directory := by
  constructor
  · rintro ⟨name, rfl⟩
    simp
  · rintro ⟨some_part, above⟩
    exact ⟨location.getLast some_part, by rw [← above, List.dropLast_append_getLast]⟩

instance (directory : String) (location : Location) : Decidable (IsPlace directory location) :=
  decidable_of_iff _ isPlace_iff.symm

/-- A run for a text that is among those asked for, and that gives a result. -/
structure Answer (asked : List (List UInt8)) where
  request : Request
  text : String
  result : Output
  /-- No zero stands in the path of the result. -/
  free : '\x00' ∉ request.output.toList
  /-- The text and the options were asked for. -/
  wasAsked : keyBytes text request.options ∈ asked
  /-- The result is that of the run. -/
  gives : optimize text request.options = .ok result

/-- The bytes that are kept for a run. -/
def Answer.bytes {asked : List (List UInt8)} (answer : Answer asked) : List UInt8 :=
  FileTree.bytesOf
    (KeptResult.toJson ⟨hash answer.text answer.request.options, answer.result⟩)

/-- Every file of a cache was kept for a run whose result has its place there. -/
def IsSound (directory : String) (asked : List (List UInt8)) (tree : FileTree) : Prop :=
  ∀ name bytes, tree.get? (Path.components directory ++ [name]) = some bytes →
    ∃ answer : Answer asked, name = entryName answer.request.input ∧ bytes = answer.bytes

/-- No two of the byte lists have the same digest. -/
def NoCollision (asked : List (List UInt8)) : Prop :=
  ∀ key ∈ asked, ∀ other ∈ asked, Sha256.hexDigest key = Sha256.hexDigest other → key = other

section

variable {directory : String} {asked : List (List UInt8)} {tree : FileTree} {request : Request}
  {text : String}

/-- What is found in a sound cache is the result of the run. -/
theorem find_of_isSound (sound : IsSound directory asked tree) (apart : NoCollision asked)
    (free : '\x00' ∉ request.output.toList) (wasAsked : keyBytes text request.options ∈ asked) :
    ∃ found, find directory request.input text request.options tree = (found, tree) ∧
      ∀ result, found = some result → optimize text request.options = .ok result := by
  cases held : tree.get? (entryLocation directory request.input) with
  | none => exact ⟨none, find_of_get?_none held, by simp⟩
  | some bytes =>
      obtain ⟨answer, shared, kept⟩ := sound _ _ held
      rw [kept] at held
      refine ⟨_, find_of_get? held, fun result found => ?_⟩
      split at found
      case isFalse => simp at found
      case isTrue sameHash =>
        obtain rfl := Option.some.inj found
        have sameKey := apart _ answer.wasAsked _ wasAsked sameHash
        obtain ⟨sameText, sameOptions⟩ := eq_of_keyBytes answer.free free shared.symm sameKey
        have options : answer.request.options = request.options := sameOptions
        rw [← sameText, ← options]
        exact answer.gives

/-- Keeping the result of a run leaves a cache sound. -/
theorem isSound_keep (sound : IsSound directory asked tree) {result : Output}
    (free : '\x00' ∉ request.output.toList) (wasAsked : keyBytes text request.options ∈ asked)
    (gives : optimize text request.options = .ok result) :
    IsSound directory asked (keep directory request.input text request.options result tree) := by
  unfold keep
  split
  case isFalse => exact sound
  case isTrue =>
    intro name bytes held
    rw [FileTree.get?_put] at held
    split at held
    case isTrue here =>
      refine ⟨⟨request, text, result, free, wasAsked, gives⟩, ?_, (Option.some.inj held).symm⟩
      simpa [entryLocation] using here
    case isFalse => exact sound name bytes held

/-- Keeping a result changes only the cache. -/
theorem keep_sameBut (result : Output) :
    FileTree.SameBut (IsPlace directory)
      (keep directory request.input text request.options result tree) tree := by
  unfold keep
  split
  case isFalse => exact .refl tree
  case isTrue => exact .put_hidden ⟨_, rfl⟩ _

end

/-! ## One call -/

open Batch

section

variable {directory : String} {asked : List (List UInt8)} {tree left right : FileTree}
  {hidden : Location → Prop} {path : String} {request : Request}

/-- Whether two runs succeed or fail alike, with trees that are the same but for hidden files. -/
def Alike {α : Type} (hidden : Location → Prop) (left right : Except Failure α × FileTree) : Prop :=
  left.1.map (fun _ => ()) = right.1.map (fun _ => ()) ∧ left.2.SameBut hidden right.2

theorem write_alike (same : left.SameBut hidden right) (path text : String) :
    ((Disk.write path text).on left).1 = ((Disk.write path text).on right).1 ∧
      ((Disk.write path text).on left).2.SameBut hidden ((Disk.write path text).on right).2 := by
  rw [Disk.on_write, Disk.on_write, same.accepts, same.obstacle]
  split
  · exact ⟨rfl, same.put _ _⟩
  · exact ⟨rfl, same⟩

theorem writeOutput_alike (same : left.SameBut hidden right) (path : String) (output : Output) :
    ((writeOutput path output).on left).1 = ((writeOutput path output).on right).1 ∧
      ((writeOutput path output).on left).2.SameBut hidden
        ((writeOutput path output).on right).2 := by
  unfold writeOutput
  obtain ⟨results, trees⟩ := write_alike same path output.content
  rw [Disk.on_bind, Disk.on_bind]
  revert results trees
  rcases (Disk.write path output.content).on left with ⟨result, after⟩
  rcases (Disk.write path output.content).on right with ⟨result', after'⟩
  rintro rfl trees
  cases result with
  | error => exact ⟨rfl, trees⟩
  | ok =>
      dsimp only
      cases output.map with
      | none => exact ⟨rfl, trees⟩
      | some map => exact write_alike trees _ _

theorem get?_write {location : Location} (apart : location ≠ Path.components path) (text : String)
    (tree : FileTree) : ((Disk.write path text).on tree).2.get? location = tree.get? location := by
  rw [Disk.on_write]
  split
  · rw [FileTree.get?_put, if_neg apart]
  · rfl

/-- Only the result and its map are written. -/
theorem get?_writeOutput {location : Location} (apart : location ≠ Path.components path)
    (apartMap : location ≠ Path.components (mapPath path)) (output : Output) (tree : FileTree) :
    ((writeOutput path output).on tree).2.get? location = tree.get? location := by
  unfold writeOutput
  have first := get?_write apart output.content tree
  rw [Disk.on_bind]
  revert first
  rcases (Disk.write path output.content).on tree with ⟨_ | _, after⟩
  · exact id
  · intro first
    dsimp only
    cases output.map with
    | none => exact first
    | some map => exact (get?_write apartMap _ after).trans first

/-- The bytes that a call asks a cache for, when its input can be read. -/
def askedFor (request : Request) (tree : FileTree) : List (List UInt8) :=
  match ((Disk.read request.input).on tree).1 with
  | .error _ => []
  | .ok text => [keyBytes text request.options]

/-- A call to optimize a file. -/
def Request.call (request : Request) (cache : Option String) : Disk Bool :=
  optimizeOne request.input request.output request.choice cache

theorem on_finish (fromCache : Bool) (path : String) (output : Output) (tree : FileTree) :
    (do writeOutput path output; return fromCache : Disk Bool).on tree =
      (((writeOutput path output).on tree).1.map fun _ => fromCache,
        ((writeOutput path output).on tree).2) := by
  rw [Disk.on_bind]
  rcases (writeOutput path output).on tree with ⟨_ | _, after⟩ <;> rfl

theorem options_eq (request : Request) :
    fileOptions request.input request.output request.choice = request.options := rfl

theorem on_findKept (directory input text : String) (options : Options) (tree : FileTree) :
    (findKept (some directory) input text options).on tree =
      (.ok (find directory input text options tree).1,
        (find directory input text options tree).2) := rfl

/-- A call without a cache: the text is read, optimized and written. -/
theorem on_call_none (request : Request) (tree : FileTree) :
    (request.call none).on tree =
      match ((Disk.read request.input).on tree).1 with
      | .error failure => (.error failure, tree)
      | .ok text =>
          match optimize text request.options with
          | .error failure => (.error failure, tree)
          | .ok result =>
              (((writeOutput request.output result).on tree).1.map fun _ => false,
                ((writeOutput request.output result).on tree).2) := by
  unfold Request.call optimizeOne
  rw [Disk.on_bind, Disk.on_read]
  cases ((Disk.read request.input).on tree).1 with
  | error => rfl
  | ok text =>
      dsimp only
      rw [Disk.on_bind, findKept, Disk.on_pure, options_eq]
      dsimp only
      rw [Disk.on_bind, Disk.on_lift]
      cases optimize text request.options with
      | error => rfl
      | ok result => exact on_finish false request.output result tree

/-- A call with a cache: what is found is written, and what is not found is made, kept and
written. -/
theorem on_call_some (request : Request) (directory : String) (tree : FileTree) :
    (request.call (some directory)).on tree =
      match ((Disk.read request.input).on tree).1 with
      | .error failure => (.error failure, tree)
      | .ok text =>
          match find directory request.input text request.options tree with
          | (some kept, tree) =>
              (((writeOutput request.output kept).on tree).1.map fun _ => true,
                ((writeOutput request.output kept).on tree).2)
          | (none, tree) =>
              match optimize text request.options with
              | .error failure => (.error failure, tree)
              | .ok result =>
                  let tree := keep directory request.input text request.options result tree
                  (((writeOutput request.output result).on tree).1.map fun _ => false,
                    ((writeOutput request.output result).on tree).2) := by
  unfold Request.call optimizeOne
  rw [Disk.on_bind, Disk.on_read]
  cases ((Disk.read request.input).on tree).1 with
  | error => rfl
  | ok text =>
      dsimp only
      rw [Disk.on_bind, on_findKept, options_eq]
      rcases find directory request.input text request.options tree with ⟨_ | kept, after⟩
      · dsimp only
        rw [Disk.on_bind, Disk.on_lift]
        cases optimize text request.options with
        | error => rfl
        | ok result =>
            dsimp only
            rw [Disk.on_bind]
            exact on_finish false request.output result _
      · exact on_finish true request.output kept after

/-- A finished run is alike whether or not the result came from the cache. -/
theorem finish_alike (same : left.SameBut hidden right) (fromCache fromCache' : Bool)
    (path : String) (output : Output) :
    Alike hidden
      (((writeOutput path output).on left).1.map fun _ => fromCache,
        ((writeOutput path output).on left).2)
      (((writeOutput path output).on right).1.map fun _ => fromCache',
        ((writeOutput path output).on right).2) := by
  obtain ⟨results, trees⟩ := writeOutput_alike same path output
  refine ⟨?_, trees⟩
  rw [results]
  cases ((writeOutput path output).on right).1 <;> rfl

/-- A call succeeds or fails in the same way with and without a sound cache, and writes the same
files. -/
theorem call_alike (sound : IsSound directory asked tree) (apart : NoCollision asked)
    (free : '\x00' ∉ request.output.toList)
    (wasAsked : ∀ key ∈ askedFor request tree, key ∈ asked) :
    Alike (IsPlace directory) ((request.call (some directory)).on tree)
      ((request.call none).on tree) := by
  rw [on_call_some, on_call_none]
  unfold askedFor at wasAsked
  cases read : ((Disk.read request.input).on tree).1 with
  | error failure => exact ⟨rfl, .refl tree⟩
  | ok text =>
      rw [read] at wasAsked
      obtain ⟨found, search, gives⟩ :=
        find_of_isSound sound apart free (wasAsked _ List.mem_cons_self)
      dsimp only
      rw [search]
      cases found with
      | some kept =>
          rw [gives kept rfl]
          exact finish_alike (.refl tree) true false request.output kept
      | none =>
          cases optimize text request.options with
          | error failure => exact ⟨rfl, .refl tree⟩
          | ok result =>
              exact finish_alike (keep_sameBut result) false false request.output result

/-- Whether a request writes beside a cache: neither its result nor the map of the result has its
place there. -/
structure Request.IsBeside (directory : String) (request : Request) : Prop where
  free : '\x00' ∉ request.output.toList
  output : ¬ IsPlace directory (Path.components request.output)
  map : ¬ IsPlace directory (Path.components (mapPath request.output))

theorem isSound_writeOutput (sound : IsSound directory asked tree)
    (beside : request.IsBeside directory) (output : Output) :
    IsSound directory asked ((writeOutput request.output output).on tree).2 := by
  intro name bytes held
  rw [get?_writeOutput] at held
  · exact sound name bytes held
  · exact fun here => beside.output ⟨name, here.symm⟩
  · exact fun here => beside.map ⟨name, here.symm⟩

/-- A call leaves a cache sound. -/
theorem isSound_call (sound : IsSound directory asked tree) (apart : NoCollision asked)
    (beside : request.IsBeside directory) (wasAsked : ∀ key ∈ askedFor request tree, key ∈ asked) :
    IsSound directory asked ((request.call (some directory)).on tree).2 := by
  rw [on_call_some]
  unfold askedFor at wasAsked
  cases read : ((Disk.read request.input).on tree).1 with
  | error failure => exact sound
  | ok text =>
      rw [read] at wasAsked
      have isAsked := wasAsked _ List.mem_cons_self
      obtain ⟨found, search, -⟩ := find_of_isSound sound apart beside.free isAsked
      dsimp only
      rw [search]
      cases found with
      | some kept => exact isSound_writeOutput sound beside kept
      | none =>
          dsimp only
          cases gives : optimize text request.options with
          | error failure => exact sound
          | ok result =>
              exact isSound_writeOutput (isSound_keep sound beside.free isAsked gives) beside result

end

/-! ## Whole runs -/

/-- What happens to a tree: a file is optimized, or anything else. -/
inductive Event
  /-- A file is optimized with the cache. -/
  | call (request : Request)
  /-- Files are changed. -/
  | change (next : FileTree → FileTree)

namespace Event

/-- The tree behind an event. -/
def after (directory : String) : Event → FileTree → FileTree
  | call request, tree => ((request.call (some directory)).on tree).2
  | change next, tree => next tree

/-- The bytes that an event asks a cache for. -/
def asks : Event → FileTree → List (List UInt8)
  | call request, tree => askedFor request tree
  | change _, _ => []

/-- Whether an event leaves the files of a cache to the cache. It may take them away. -/
def IsBeside (directory : String) : Event → Prop
  | call request => request.IsBeside directory
  | change next =>
      ∀ tree location, IsPlace directory location →
        (next tree).get? location = tree.get? location ∨ (next tree).get? location = none

/-- The tree behind events that follow each other. -/
def afterAll (directory : String) (events : List Event) (tree : FileTree) : FileTree :=
  events.foldl (fun tree event => event.after directory tree) tree

/-- The bytes that events that follow each other ask a cache for. -/
def asksAll (directory : String) : List Event → FileTree → List (List UInt8)
  | [], _ => []
  | event :: events, tree =>
      event.asks tree ++ asksAll directory events (event.after directory tree)

variable {directory : String} {asked : List (List UInt8)} {tree : FileTree} {event : Event}
  {events : List Event}

/-- One event leaves a cache sound. -/
theorem isSound_after (sound : IsSound directory asked tree) (apart : NoCollision asked)
    (beside : event.IsBeside directory) (wasAsked : ∀ key ∈ event.asks tree, key ∈ asked) :
    IsSound directory asked (event.after directory tree) := by
  cases event with
  | call request => exact isSound_call sound apart beside wasAsked
  | change next =>
      intro name bytes held
      obtain same | gone := beside tree _ ⟨name, rfl⟩
      · exact sound name bytes (same.symm.trans held)
      · have found : none = some bytes := gone.symm.trans held
        contradiction

/-- Events leave a cache sound. -/
theorem isSound_afterAll (sound : IsSound directory asked tree) (apart : NoCollision asked)
    (beside : ∀ event ∈ events, event.IsBeside directory)
    (wasAsked : ∀ key ∈ asksAll directory events tree, key ∈ asked) :
    IsSound directory asked (afterAll directory events tree) := by
  induction events generalizing tree with
  | nil => exact sound
  | cons event events ih =>
      have step := isSound_after sound apart (beside event List.mem_cons_self)
        fun key here => wasAsked key (List.mem_append_left _ here)
      exact ih step (fun other later => beside other (List.mem_cons_of_mem _ later))
        fun key later => wasAsked key (List.mem_append_right _ later)

theorem asksAll_append (directory : String) (events later : List Event) (tree : FileTree) :
    asksAll directory (events ++ later) tree =
      asksAll directory events tree ++
        asksAll directory later (afterAll directory events tree) := by
  induction events generalizing tree with
  | nil => rfl
  | cons event events ih =>
      rw [List.cons_append, asksAll, ih, asksAll, List.append_assoc]
      rfl

end Event

/-- A cache does not show. It starts without a file, and other files are changed in any way in
between: every call succeeds or fails as it does without the cache, with the same failure, and
leaves the same files outside of it. -/
theorem call_alike_of_run {directory : String} {start : FileTree} {events before later : List Event}
    {request : Request}
    (empty : ∀ location, IsPlace directory location → start.get? location = none)
    (beside : ∀ event ∈ events, event.IsBeside directory)
    (apart : NoCollision (Event.asksAll directory events start))
    (happens : events = before ++ .call request :: later) :
    Alike (IsPlace directory)
      ((request.call (some directory)).on (Event.afterAll directory before start))
      ((request.call none).on (Event.afterAll directory before start)) := by
  subst happens
  have asks := Event.asksAll_append directory before (.call request :: later) start
  have sound : IsSound directory (Event.asksAll directory (before ++ .call request :: later) start)
      start := by
    intro name bytes held
    rw [empty _ ⟨name, rfl⟩] at held
    contradiction
  have reached : IsSound directory (Event.asksAll directory (before ++ .call request :: later) start)
      (Event.afterAll directory before start) := Event.isSound_afterAll sound apart
    (fun event here => beside event (List.mem_append_left _ here))
    (fun key here => asks ▸ List.mem_append_left _ here)
  have requested := beside (.call request) (List.mem_append_right _ List.mem_cons_self)
  refine call_alike reached apart requested.free fun key here => ?_
  rw [asks]
  exact List.mem_append_right _ (List.mem_append_left _ here)

/-- A file with the same text, whose path shares the entry, was optimized before. -/
theorem call_alike_of_run_shared_entry :
    let nested : Request := ⟨"a/b.js", "a/b.ngo.js", ⟨true, true⟩⟩
    let plain : Request := ⟨"a_b.js", "a_b.ngo.js", ⟨true, true⟩⟩
    let text := FileTree.bytesOf "var a = 1;\n"
    let start : FileTree :=
      ⟨[(["a", "b.js"], text), (["a_b.js"], text)], [["a"], ["cache"]]⟩
    let reached := Event.afterAll "cache" [.call plain, .change (·.put ["c.js"] text)] start
    entryName nested.input = entryName plain.input ∧
      Alike (IsPlace "cache") ((nested.call (some "cache")).on reached)
        ((nested.call none).on reached) := by
  intro nested plain text start reached
  let events : List Event := [.call plain, .change (·.put ["c.js"] text), .call nested]
  have asks : Event.asksAll "cache" events start =
      [keyBytes "var a = 1;\n" plain.options, keyBytes "var a = 1;\n" nested.options] := by
    decide +kernel
  have besideNested : nested.IsBeside "cache" := by constructor <;> decide +kernel
  have besidePlain : plain.IsBeside "cache" := by constructor <;> decide +kernel
  have happens : events = [.call plain, .change (·.put ["c.js"] text)] ++ .call nested :: [] := rfl
  refine ⟨by decide +kernel, call_alike_of_run ?_ ?_ ?_ happens⟩
  · intro location place
    have apart : location ≠ ["a", "b.js"] ∧ location ≠ ["a_b.js"] := by
      constructor <;> (rintro rfl; revert place; decide +kernel)
    rw [FileTree.get?, FileTree.lookup_cons, if_neg apart.1, FileTree.lookup_cons, if_neg apart.2]
    rfl
  · simp only [events, List.forall_mem_cons, List.not_mem_nil, false_imp_iff, implies_true,
      and_true]
    refine ⟨besidePlain, fun tree location place => .inl ?_, besideNested⟩
    rw [FileTree.get?_put, if_neg]
    rintro rfl
    revert place
    decide +kernel
  · rw [asks]
    unfold NoCollision
    decide +kernel

end Cache
end Shakedown
