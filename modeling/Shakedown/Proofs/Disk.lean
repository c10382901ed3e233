import Shakedown.Proofs.FileTree

/-!
# Steps on a file tree

What steps give and leave, one behind the other. Steps that read one file and write certain others
give and write the same whatever else the tree holds, so they may be taken in either order as long
as none of them writes what another one reads or writes.
-/

namespace Shakedown
namespace Disk

variable {α β : Type}

/-- What steps over a tree give, and the tree behind them. -/
def on (disk : Disk α) (tree : FileTree) : Except Failure α × FileTree :=
  (disk.run.run tree).run

theorem on_pure (value : α) (tree : FileTree) : (pure value : Disk α).on tree = (.ok value, tree) :=
  rfl

theorem on_lift (result : Except Failure α) (tree : FileTree) :
    (liftM result : Disk α).on tree = (result, tree) := by
  cases result <;> rfl

theorem on_bind (first : Disk α) (next : α → Disk β) (tree : FileTree) :
    (first >>= next).on tree =
      match first.on tree with
      | (.ok value, tree) => (next value).on tree
      | (.error failure, tree) => (.error failure, tree) := by
  have run_eq : (first >>= next).on tree =
      (ExceptT.bindCont next (first.on tree).1).run (first.on tree).2 := rfl
  rw [run_eq]
  rcases first.on tree with ⟨_ | value, tree⟩ <;> rfl

theorem on_getThe (tree : FileTree) :
    (getThe FileTree : Disk FileTree).on tree = (.ok tree, tree) :=
  rfl

/-- Reading changes nothing. -/
theorem on_read (path : String) (tree : FileTree) :
    (read path).on tree = (((read path).on tree).1, tree) := by
  unfold read
  rw [on_bind, on_getThe]
  dsimp only
  cases tree.get? (Path.components path) with
  | none => rfl
  | some bytes =>
      dsimp only
      cases FileTree.textOf? bytes <;> rfl

theorem on_write (path text : String) (tree : FileTree) :
    (write path text).on tree =
      if tree.accepts (Path.components path) then
        (.ok (), tree.put (Path.components path) (FileTree.bytesOf text))
      else (.error { cause := obstacle path tree, file := path }, tree) := by
  unfold write
  rw [on_bind]
  change Disk.on (if tree.accepts _ then _ else _) tree = _
  split <;> rfl

/-! ## Local steps -/

/-- Whether steps read one file only, or none, and write to certain locations at most: over trees
with the same directories and with that file alike they give the same and write the same. -/
def IsLocal (disk : Disk α) (input : Location) (outputs : List Location) : Prop :=
  ∀ left right : FileTree, left.directories = right.directories →
    left.get? input = right.get? input →
    ∃ result puts, (puts.map Prod.fst).Sublist outputs ∧
      disk.on left = (result, left.putAll puts) ∧ disk.on right = (result, right.putAll puts)

namespace IsLocal

variable {disk : Disk α} {other : Disk β} {input otherInput : Location}
  {outputs otherOutputs : List Location} {tree : FileTree}

theorem pure (value : α) : (Pure.pure value : Disk α).IsLocal input [] :=
  fun _ _ _ _ => ⟨.ok value, [], .slnil, rfl, rfl⟩

theorem lift (result : Except Failure α) : (liftM result : Disk α).IsLocal input [] :=
  fun left right _ _ => ⟨result, [], .slnil, on_lift result left, on_lift result right⟩

theorem read (path : String) : (Disk.read path).IsLocal (Path.components path) [] := by
  intro left right directories file
  have reads : ((Disk.read path).on left).1 = ((Disk.read path).on right).1 := by
    unfold Disk.read
    rw [on_bind, on_bind, on_getThe, on_getThe]
    dsimp only
    rw [file]
    cases right.get? (Path.components path) with
    | none =>
        have alike : obstacle path left = obstacle path right := by
          rw [obstacle, obstacle, FileTree.hasDirectory, FileTree.hasDirectory, directories]
        dsimp only
        rw [alike]
        rfl
    | some bytes =>
        dsimp only
        cases FileTree.textOf? bytes <;> rfl
  refine ⟨_, [], .slnil, on_read path left, ?_⟩
  rw [reads]
  exact on_read path right

theorem write (path text : String) :
    (Disk.write path text).IsLocal input [Path.components path] := by
  intro left right directories _
  have same : left.SameBut (fun _ => True) right :=
    ⟨directories, fun _ visible => absurd trivial visible⟩
  rw [on_write, on_write, same.accepts, same.obstacle]
  split
  · exact ⟨_, [(Path.components path, FileTree.bytesOf text)], .refl _, rfl, rfl⟩
  · exact ⟨_, [], List.nil_sublist _, rfl, rfl⟩

/-- More locations may be allowed than are written. -/
theorem mono {more : List Location} (steps : disk.IsLocal input outputs)
    (among : outputs.Sublist more) : disk.IsLocal input more := by
  intro left right directories file
  obtain ⟨result, puts, written, both⟩ := steps left right directories file
  exact ⟨result, puts, written.trans among, both⟩

/-- Steps that follow local steps which do not write what is read. -/
theorem bind {next : α → Disk β} (first : disk.IsLocal input outputs) (unread : input ∉ outputs)
    (second : ∀ value, (next value).IsLocal input otherOutputs) :
    (disk >>= next).IsLocal input (outputs ++ otherOutputs) := by
  intro left right directories file
  obtain ⟨result, puts, written, onLeft, onRight⟩ := first left right directories file
  rw [on_bind, on_bind, onLeft, onRight]
  cases result with
  | error failure => exact ⟨_, puts, written.trans (List.sublist_append_left _ _), rfl, rfl⟩
  | ok value =>
      have untouched : input ∉ puts.map Prod.fst := fun member => unread (written.mem member)
      obtain ⟨result, more, alsoWritten, onLeft, onRight⟩ :=
        second value (left.putAll puts) (right.putAll puts) (by simpa using directories)
          (by rw [FileTree.get?_putAll untouched, FileTree.get?_putAll untouched, file])
      refine ⟨result, puts ++ more, ?_, ?_, ?_⟩
      · rw [List.map_append]
        exact written.append alsoWritten
      · rw [FileTree.putAll_append, ← onLeft]
      · rw [FileTree.putAll_append, ← onRight]

/-- What local steps give and write over one tree. -/
theorem exists_puts (steps : disk.IsLocal input outputs) (tree : FileTree) :
    ∃ puts, (puts.map Prod.fst).Sublist outputs ∧
      disk.on tree = ((disk.on tree).1, tree.putAll puts) := by
  obtain ⟨result, puts, written, onTree, -⟩ := steps tree tree rfl rfl
  exact ⟨puts, written, by rw [onTree]⟩

/-- Directories stay, and so do the files that local steps do not write. -/
theorem directories_on (steps : disk.IsLocal input outputs) (tree : FileTree) :
    (disk.on tree).2.directories = tree.directories := by
  obtain ⟨puts, -, onTree⟩ := steps.exists_puts tree
  rw [onTree]
  exact FileTree.directories_putAll tree puts

theorem get?_on (steps : disk.IsLocal input outputs) {location : Location}
    (elsewhere : location ∉ outputs) (tree : FileTree) :
    (disk.on tree).2.get? location = tree.get? location := by
  obtain ⟨puts, written, onTree⟩ := steps.exists_puts tree
  rw [onTree]
  exact FileTree.get?_putAll (fun member => elsewhere (written.mem member)) tree

/-- Local steps give the same behind others that do not write what they read. -/
theorem result_behind (steps : disk.IsLocal input outputs)
    (others : other.IsLocal otherInput otherOutputs) (unread : input ∉ otherOutputs)
    (tree : FileTree) : (disk.on (other.on tree).2).1 = (disk.on tree).1 := by
  obtain ⟨result, puts, -, onBehind, onTree⟩ := steps (other.on tree).2 tree
    (others.directories_on tree) (others.get?_on unread tree)
  rw [onBehind, onTree]

/-- Local steps may be taken in either order when none of them writes what the others read or
write. -/
theorem comm (steps : disk.IsLocal input outputs) (others : other.IsLocal otherInput otherOutputs)
    (unread : input ∉ otherOutputs) (alsoUnread : otherInput ∉ outputs)
    (apart : outputs.Disjoint otherOutputs) (tree : FileTree) :
    (disk.on (other.on tree).2).2 = (other.on (disk.on tree).2).2 := by
  obtain ⟨_, puts, written, onBehind, onTree⟩ := steps (other.on tree).2 tree
    (others.directories_on tree) (others.get?_on unread tree)
  obtain ⟨_, more, alsoWritten, otherBehind, otherTree⟩ := others (disk.on tree).2 tree
    (steps.directories_on tree) (steps.get?_on alsoUnread tree)
  have putsApart : (puts.map Prod.fst).Disjoint (more.map Prod.fst) :=
    fun location member alsoMember => apart (written.mem member) (alsoWritten.mem alsoMember)
  rw [onBehind, otherBehind, onTree, otherTree]
  exact (FileTree.putAll_comm putsApart tree).symm

/-- Local steps that do not write what they read change nothing when they are taken again. -/
theorem again (steps : disk.IsLocal input outputs) (unread : input ∉ outputs)
    (distinct : outputs.Nodup) (tree : FileTree) :
    disk.on (disk.on tree).2 = disk.on tree := by
  obtain ⟨result, puts, written, onBehind, onTree⟩ := steps (disk.on tree).2 tree
    (steps.directories_on tree) (steps.get?_on unread tree)
  rw [onBehind, onTree, FileTree.putAll_putAll (distinct.sublist written)]

end IsLocal
end Disk
end Shakedown
