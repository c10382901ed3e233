import Shakedown.Proofs.Batch.Outputs
import Shakedown.Proofs.Disk

/-!
# All scripts of a directory

Processing a script reads the script and writes its result and the map of the result. No script is
read where another one writes, so the order in which scripts are processed does not show, and what
one of them leaves is what it leaves when it is processed alone. A second run finds the same scripts
and makes the same files of them.
-/

namespace Shakedown
namespace Batch

open Path

/-! ## Files that are processed independently -/

variable {process : String → Disk Bool} {results : String → List Location}
  {paths order other : List String} {path : String} {tree : FileTree}

/-- The tree behind files that are processed one behind the other. -/
def treeBehind (process : String → Disk Bool) (paths : List String) (tree : FileTree) : FileTree :=
  paths.foldl (fun tree path => ((process path).on tree).2) tree

@[simp]
theorem treeBehind_cons (process : String → Disk Bool) (path : String) (paths : List String)
    (tree : FileTree) : treeBehind process (path :: paths) tree =
      treeBehind process paths ((process path).on tree).2 := rfl

/-- The report on files when it is known what each of them gives. -/
def reportOf (gives : String → Except Failure Bool) (paths : List String) : RunReport :=
  paths.foldl (fun report path => addResult report path (gives path)) ⟨0, 0, []⟩

/-- Whether files are processed without regard to each other: each is read and has places of its own
that are written, and none is read where another or itself is written. -/
structure IsIndependent (process : String → Disk Bool) (results : String → List Location)
    (paths : List String) : Prop where
  /-- A file and places for its results are all that is used. -/
  isLocal : ∀ path ∈ paths, (process path).IsLocal (components path) (results path)
  /-- No file is written. -/
  unread : ∀ path ∈ paths, ∀ other ∈ paths, components path ∉ results other
  /-- The places for the results of one file are different. -/
  distinct : ∀ path ∈ paths, (results path).Nodup
  /-- The results of different files have different places. -/
  apart : ∀ path ∈ paths, ∀ other ∈ paths, path ≠ other → (results path).Disjoint (results other)

namespace IsIndependent

variable (independent : IsIndependent process results paths)

include independent

/-- What one file gives does not depend on another that was processed before. -/
theorem gives_behind {other : String} (listed : path ∈ paths) (also : other ∈ paths)
    (tree : FileTree) :
    ((process path).on ((process other).on tree).2).1 = ((process path).on tree).1 :=
  (independent.isLocal path listed).result_behind (independent.isLocal other also)
    (independent.unread path listed other also) tree

/-- Two files may be processed in either order. -/
theorem comm {other : String} (listed : path ∈ paths) (also : other ∈ paths) (tree : FileTree) :
    ((process path).on ((process other).on tree).2).2 =
      ((process other).on ((process path).on tree).2).2 := by
  by_cases same : path = other
  · rw [same]
  · exact (independent.isLocal path listed).comm (independent.isLocal other also)
      (independent.unread path listed other also) (independent.unread other also path listed)
      (independent.apart path listed other also same) tree

/-- A file that is processed again leaves nothing new. -/
theorem again (listed : path ∈ paths) (tree : FileTree) :
    ((process path).on ((process path).on tree).2).2 = ((process path).on tree).2 := by
  rw [(independent.isLocal path listed).again (independent.unread path listed path listed)
    (independent.distinct path listed)]

theorem gives_treeBehind (listed : path ∈ paths) (among : order ⊆ paths) (tree : FileTree) :
    ((process path).on (treeBehind process order tree)).1 = ((process path).on tree).1 := by
  induction order generalizing tree with
  | nil => rfl
  | cons first rest ih =>
      obtain ⟨first_listed, rest_among⟩ := List.cons_subset.1 among
      exact (ih rest_among _).trans (independent.gives_behind listed first_listed tree)

/-- Files give behind all that was processed what they give without it. -/
theorem reportOf_treeBehind (among : order ⊆ paths) (tree : FileTree) :
    reportOf (fun path => ((process path).on (treeBehind process order tree)).1) paths =
      reportOf (fun path => ((process path).on tree).1) paths :=
  List.foldl_ext _ _ _ fun report path listed =>
    congrArg (addResult report path) (independent.gives_treeBehind listed among tree)

/-- A file may as well be processed before others. -/
theorem treeBehind_comm (listed : path ∈ paths) (among : order ⊆ paths) (tree : FileTree) :
    treeBehind process order ((process path).on tree).2 =
      ((process path).on (treeBehind process order tree)).2 := by
  induction order generalizing tree with
  | nil => rfl
  | cons first rest ih =>
      obtain ⟨first_listed, rest_among⟩ := List.cons_subset.1 among
      rw [treeBehind_cons, treeBehind_cons, independent.comm first_listed listed, ih rest_among]

/-- The order in which files are processed does not show in the tree. -/
theorem treeBehind_perm (perm : order.Perm paths) (tree : FileTree) :
    treeBehind process order tree = treeBehind process paths tree :=
  perm.foldl_eq' (fun _ listed _ also tree =>
    independent.comm (perm.mem_iff.1 also) (perm.mem_iff.1 listed) tree) tree

/-- Files that are processed again leave nothing new. -/
theorem treeBehind_again (among : order ⊆ paths) (tree : FileTree) :
    treeBehind process order (treeBehind process order tree) = treeBehind process order tree := by
  induction order generalizing tree with
  | nil => rfl
  | cons first rest ih =>
      obtain ⟨listed, rest_among⟩ := List.cons_subset.1 among
      rw [treeBehind_cons, treeBehind_cons, ← independent.treeBehind_comm listed rest_among,
        independent.again listed, ih rest_among]

/-- Nothing changes but at the places for results. -/
theorem get?_treeBehind_of_notMem {location : Location} (among : order ⊆ paths)
    (elsewhere : ∀ path ∈ order, location ∉ results path) (tree : FileTree) :
    (treeBehind process order tree).get? location = tree.get? location := by
  induction order generalizing tree with
  | nil => rfl
  | cons first rest ih =>
      obtain ⟨listed, rest_among⟩ := List.cons_subset.1 among
      obtain ⟨first_elsewhere, rest_elsewhere⟩ := List.forall_mem_cons.1 elsewhere
      rw [treeBehind_cons, ih rest_among rest_elsewhere,
        (independent.isLocal first listed).get?_on first_elsewhere]

/-- What stands at the places for the results of a file is what the file alone leaves there. -/
theorem get?_treeBehind (among : order ⊆ paths) (listed : path ∈ order) {location : Location}
    (written : location ∈ results path) (tree : FileTree) :
    (treeBehind process order tree).get? location = ((process path).on tree).2.get? location := by
  induction order generalizing tree with
  | nil => contradiction
  | cons first rest ih =>
      obtain ⟨first_among, rest_among⟩ := List.cons_subset.1 among
      have path_among := among listed
      have elsewhere {other : String} (also : other ∈ paths) (different : other ≠ path) :
          location ∉ results other :=
        fun member => independent.apart other also path path_among different member written
      by_cases later : path ∈ rest
      · rw [treeBehind_cons, ih rest_among later, independent.comm path_among first_among]
        by_cases same : first = path
        · rw [same, independent.again path_among]
        · exact (independent.isLocal first first_among).get?_on (elsewhere first_among same) _
      · obtain rfl : path = first := (List.mem_cons.1 listed).resolve_right later
        refine independent.get?_treeBehind_of_notMem rest_among (fun other member => ?_) _
        exact elsewhere (rest_among member) fun same => later (same ▸ member)

/-- Directories stay. -/
theorem directories_treeBehind (among : order ⊆ paths) (tree : FileTree) :
    (treeBehind process order tree).directories = tree.directories := by
  induction order generalizing tree with
  | nil => rfl
  | cons first rest ih =>
      obtain ⟨listed, rest_among⟩ := List.cons_subset.1 among
      rw [treeBehind_cons, ih rest_among, (independent.isLocal first listed).directories_on]

/-- Files that are processed one behind the other give what each of them gives alone. -/
theorem run_processAll (among : order ⊆ paths) (tree : FileTree) :
    (processAll process order).run tree =
      (reportOf (fun path => ((process path).on tree).1) order, treeBehind process order tree) := by
  unfold processAll reportOf
  generalize (⟨0, 0, []⟩ : RunReport) = report
  induction order generalizing tree report with
  | nil => rfl
  | cons first rest ih =>
      obtain ⟨listed, rest_among⟩ := List.cons_subset.1 among
      have alone : ∀ path ∈ rest, ((process path).on ((process first).on tree).2).1 =
          ((process path).on tree).1 :=
        fun path member => independent.gives_behind (rest_among member) listed tree
      rw [List.foldlM_cons, treeBehind_cons, List.foldl_cons]
      refine (ih rest_among _ _).trans ?_
      exact congrArg (·, _) (List.foldl_ext _ _ _ fun report path member =>
        congrArg (addResult report path) (alone path member))

end IsIndependent

/-! ## Reports -/

/-- A report counts the files that were processed, and lists the others. -/
theorem reportOf_eq (gives : String → Except Failure Bool) (paths : List String) :
    reportOf gives paths =
      { processed := paths.countP fun path => (gives path).isOk
        cached := paths.countP fun path => (gives path).toOption.getD false
        failed := paths.filterMap fun path =>
          match gives path with
          | .ok _ => none
          | .error failure => some (path, failure) } := by
  have from_report (report : RunReport) :
      paths.foldl (fun report path => addResult report path (gives path)) report =
        { processed := report.processed + paths.countP fun path => (gives path).isOk
          cached := report.cached + paths.countP fun path => (gives path).toOption.getD false
          failed := report.failed ++ paths.filterMap fun path =>
            match gives path with
            | .ok _ => none
            | .error failure => some (path, failure) } := by
    induction paths generalizing report with
    | nil => simp
    | cons path paths ih =>
        rw [List.foldl_cons, ih]
        cases given : gives path with
        | error failure =>
            simp [addResult, given, Except.isOk, Except.toBool, Except.toOption]
        | ok fromCache =>
            cases fromCache <;>
              simp [addResult, given, Except.isOk, Except.toBool, Except.toOption,
                Nat.add_assoc, Nat.add_comm 1]
  simpa [reportOf] using from_report ⟨0, 0, []⟩

/-! ## Optimizing beside the input -/

section

variable (options : RunOptions) {directory : String}

theorem isLocal_writeOutput {input : Location} {path : String} (unread : input ≠ components path)
    (output : Output) :
    (writeOutput path output).IsLocal input [components path, components (mapPath path)] := by
  refine (Disk.IsLocal.write path output.content).bind (by simpa using unread) fun _ => ?_
  cases output.map with
  | none => exact (Disk.IsLocal.pure ()).mono (List.nil_sublist _)
  | some map => exact .write _ _

/-- Optimizing a file without a cache reads the file and writes the result and its map. -/
theorem isLocal_optimizeOne {input output : String}
    (unread : components input ∉ [components output, components (mapPath output)]) :
    (optimizeOne input output options none).IsLocal (components input)
      [components output, components (mapPath output)] := by
  have apart := List.ne_of_not_mem_cons unread
  refine (Disk.IsLocal.read input).bind List.not_mem_nil fun content => ?_
  refine (Disk.IsLocal.lift (optimize content (fileOptions input output options))).bind
    List.not_mem_nil fun result => ?_
  exact (isLocal_writeOutput apart result).bind unread fun _ => .pure false

theorem isLocal_optimizeBeside {path : String} (unread : components path ∉ outputs path) :
    (optimizeBeside options none path).IsLocal (components path) (outputs path) := by
  intro left right directories file
  unfold optimizeBeside outputs at *
  rw [Disk.on_bind, Disk.on_bind, Disk.on_lift, Disk.on_lift]
  cases named : outputPath path optimizedMark with
  | error failure => exact ⟨.error failure, [], .slnil, rfl, rfl⟩
  | ok output =>
      rw [named] at unread
      exact isLocal_optimizeOne options unread left right directories file

/-- The scripts below a directory are processed without regard to each other. -/
theorem isIndependent_scripts (named : tree.IsNamed) (directory : String) :
    IsIndependent (optimizeBeside options none) outputs (scripts directory tree) where
  isLocal _ found := isLocal_optimizeBeside options (components_notMem_outputs named found found)
  unread _ found _ alsoFound := components_notMem_outputs named found alsoFound
  distinct _ found := nodup_outputs named found
  apart _ found _ alsoFound different := disjoint_outputs named found alsoFound different

/-- The scripts below a directory stay the same while they are processed. -/
theorem scripts_treeBehind (named : tree.IsNamed) (among : order ⊆ scripts directory tree)
    (now : FileTree) :
    scripts directory (treeBehind (optimizeBeside options none) order now) =
      scripts directory now := by
  induction order generalizing now with
  | nil => rfl
  | cons first rest ih =>
      obtain ⟨found, rest_among⟩ := List.cons_subset.1 among
      obtain ⟨puts, written, on_now⟩ :=
        ((isIndependent_scripts options named directory).isLocal first found).exists_puts now
      rw [treeBehind_cons, ih rest_among, on_now]
      exact scripts_putAll (fun _ member =>
        exists_name_of_mem_outputs named found (written.mem member)) directory now

end

/-! ## Runs over a directory -/

/-- The report and the tree behind a run over scripts in a given order. -/
def runOver (order : List String) (options : RunOptions) (tree : FileTree) :
    RunReport × FileTree :=
  (processAll (optimizeBeside options none) order).run tree

/-- The report and the tree behind a run over all scripts below a directory. -/
def runBelow (directory : String) (options : RunOptions) (tree : FileTree) :
    RunReport × FileTree :=
  (optimizeAll directory options none).run tree

/-- What a run over all scripts below a directory promises. -/
structure IsRepeatable (directory : String) (options : RunOptions) (tree : FileTree) : Prop where
  /-- In whatever order the scripts are processed, the tree is the same, as many succeed, and the
  same fail for the same reasons. -/
  anyOrder : ∀ order, order.Perm (scripts directory tree) →
    (runOver order options tree).2 = (runBelow directory options tree).2 ∧
    (runOver order options tree).1.processed = (runBelow directory options tree).1.processed ∧
    (runOver order options tree).1.failed.Perm (runBelow directory options tree).1.failed
  /-- Over any tree a script writes at most its result and the map of the result. -/
  confined : ∀ path ∈ scripts directory tree, ∀ now location, location ∉ outputs path →
    ((optimizeBeside options none path).on now).2.get? location = now.get? location
  /-- No script stands where one of them writes. -/
  spared : ∀ path ∈ scripts directory tree, ∀ other ∈ scripts directory tree,
    components path ∉ outputs other
  /-- Different scripts write different files. -/
  apart : ∀ path ∈ scripts directory tree, ∀ other ∈ scripts directory tree, path ≠ other →
    (outputs path).Disjoint (outputs other)
  /-- The files that a script writes are in the end what the script alone makes of them. -/
  own : ∀ path ∈ scripts directory tree, ∀ location ∈ outputs path,
    (runBelow directory options tree).2.get? location =
      ((optimizeBeside options none path).on tree).2.get? location
  /-- All other files and all directories stay. -/
  others : (runBelow directory options tree).2.directories = tree.directories ∧
    ∀ location, (∀ path ∈ scripts directory tree, location ∉ outputs path) →
      (runBelow directory options tree).2.get? location = tree.get? location
  /-- A script whose text cannot be optimized is listed with the reason, and what stands at the
  places for its files stays. -/
  untouched : ∀ path ∈ scripts directory tree, ∀ text output failure,
    ((Disk.read path).on tree).1 = .ok text → outputPath path optimizedMark = .ok output →
    optimize text (fileOptions path output options) = .error failure →
    (path, failure) ∈ (runBelow directory options tree).1.failed ∧
      ∀ location ∈ outputs path,
        (runBelow directory options tree).2.get? location = tree.get? location
  /-- A second run reports the same and leaves the tree as it is. -/
  again : runBelow directory options (runBelow directory options tree).2 =
    ((runBelow directory options tree).1, (runBelow directory options tree).2)

/-- A script whose text cannot be optimized writes nothing. -/
theorem on_optimizeBeside_of_error {options : RunOptions} {text output : String} {failure : Failure}
    (reads : ((Disk.read path).on tree).1 = .ok text)
    (named : outputPath path optimizedMark = .ok output)
    (fails : optimize text (fileOptions path output options) = .error failure) :
    (optimizeBeside options none path).on tree = (.error failure, tree) := by
  unfold optimizeBeside optimizeOne
  rw [Disk.on_bind, Disk.on_lift, named]
  dsimp only
  rw [Disk.on_bind, Disk.on_read, reads]
  dsimp only
  rw [Disk.on_bind, findKept, Disk.on_pure]
  dsimp only
  rw [Disk.on_bind, Disk.on_lift, fails]

/-- The scripts below a directory can be processed in any order, and a second run changes nothing,
whatever the names of the files in the tree. -/
theorem optimizeAll_isRepeatable (directory : String) (options : RunOptions)
    (named : tree.IsNamed) : IsRepeatable directory options tree := by
  have independent := isIndependent_scripts options named directory
  have runOver_eq {order : List String} (among : order ⊆ scripts directory tree) (now : FileTree) :
      runOver order options now =
        (reportOf (fun path => ((optimizeBeside options none path).on now).1) order,
          treeBehind (optimizeBeside options none) order now) :=
    independent.run_processAll among now
  have all := List.Subset.refl (scripts directory tree)
  have runBelow_eq := runOver_eq all tree
  change runBelow directory options tree = _ at runBelow_eq
  constructor
  case anyOrder =>
    intro order perm
    rw [runBelow_eq, runOver_eq perm.subset, reportOf_eq, reportOf_eq]
    exact ⟨independent.treeBehind_perm perm tree, perm.countP_eq _, perm.filterMap _⟩
  case confined =>
    intro path found now location elsewhere
    exact (independent.isLocal path found).get?_on elsewhere now
  case spared => exact independent.unread
  case apart => exact independent.apart
  case own =>
    intro path found location written
    rw [runBelow_eq]
    exact independent.get?_treeBehind all found written tree
  case others =>
    rw [runBelow_eq]
    exact ⟨independent.directories_treeBehind all tree,
      fun location elsewhere => independent.get?_treeBehind_of_notMem all elsewhere tree⟩
  case untouched =>
    intro path found text output failure reads named fails
    have alone := on_optimizeBeside_of_error reads named fails
    rw [runBelow_eq, reportOf_eq]
    refine ⟨List.mem_filterMap.2 ⟨path, found, by rw [alone]⟩, fun location written => ?_⟩
    rw [independent.get?_treeBehind all found written tree, alone]
  case again =>
    have scripts_after := scripts_treeBehind options named all tree
    rw [runBelow_eq]
    change runOver (scripts directory _) options _ = _
    rw [scripts_after, runOver_eq all, independent.reportOf_treeBehind all,
      independent.treeBehind_again all]

/-- Among the files there is a result of an earlier run, a name with the mark of results inside, one
that is an extension only, and a directory stands in the place for a map. -/
theorem optimizeAll_isRepeatable_mixed :
    let text := FileTree.bytesOf "var a = 1;\n"
    let broken := FileTree.bytesOf "var decorators = ;\n"
    let tree : FileTree :=
      ⟨[(["d", ".js"], text), (["d", "a.js"], text), (["d", "a.ngo.js"], broken),
        (["d", "b.js"], broken), (["d", "c", "a.ngo.b.js"], text), (["d", "e.js"], text)],
        [["d"], ["d", "c"], ["d", "e.ngo.js.map"]]⟩
    tree.IsNamed ∧
      scripts "d/" tree = ["d/.js", "d/a.js", "d/b.js", "d/c/a.ngo.b.js", "d/e.js"] ∧
      (runBelow "d/" ⟨true, true⟩ tree).1.failed.map Prod.fst = ["d/b.js", "d/e.js"] ∧
      IsRepeatable "d/" ⟨true, true⟩ tree := by
  intro text broken tree
  have named : tree.IsNamed := by decide +kernel
  exact ⟨named, by decide +kernel, by decide +kernel, optimizeAll_isRepeatable "d/" _ named⟩

end Batch
end Shakedown
