import Mathlib.Data.List.Nodup
import Shakedown.FileTree

/-!
# What a file tree holds

The file at one location after a tree was changed at another or at the same one, and trees that are
the same but for some files. Files are kept in the order of their paths, so files at different
locations may be put in either order.
-/

namespace Shakedown
namespace FileTree

theorem lookup_cons (present other : Location) (content : List UInt8)
    (files : List (Location × List UInt8)) :
    ((present, content) :: files).lookup other =
      if other = present then some content else files.lookup other := by
  by_cases same : other = present
  · simp [same]
  · simp [List.lookup_cons, beq_false_of_ne same, same]

theorem lookup_place (location other : Location) (bytes : List UInt8)
    (files : List (Location × List UInt8)) :
    (place location bytes files).lookup other =
      if other = location then some bytes else files.lookup other := by
  induction files with
  | nil => rw [place, lookup_cons]
  | cons file files ih =>
      obtain ⟨present, content⟩ := file
      unfold place
      split
      case isTrue here =>
        subst present
        simp only [lookup_cons]
        split <;> rfl
      case isFalse elsewhere =>
        split
        · rw [lookup_cons]
        · rw [lookup_cons, lookup_cons, ih]
          split
          case isTrue atPresent => rw [if_neg (atPresent ▸ elsewhere)]
          case isFalse => rfl

/-! ## The order of paths -/

theorem precedes_or_precedes {left right : Location} (different : left ≠ right) :
    precedes left right ∨ precedes right left := by
  induction left generalizing right with
  | nil =>
      cases right with
      | nil => contradiction
      | cons => exact .inl rfl
  | cons first rest ih =>
      cases right with
      | nil => exact .inr rfl
      | cons other others =>
          rw [precedes, precedes]
          by_cases same : first = other
          · subst same
            have restDifferent : rest ≠ others := fun same => different (by rw [same])
            simpa using ih restDifferent
          · rw [if_neg same, if_neg (Ne.symm same), decide_eq_true_iff, decide_eq_true_iff]
            by_cases before : first < other
            · exact .inl before
            · exact .inr (Std.lt_of_le_of_ne before (Ne.symm same))

theorem precedes_trans {first second third : Location} (front : precedes first second)
    (back : precedes second third) : precedes first third := by
  induction first generalizing second third with
  | nil =>
      cases third with
      | nil => cases second <;> contradiction
      | cons => rfl
  | cons left lefts ih =>
      cases second with
      | nil => contradiction
      | cons middle middles =>
          cases third with
          | nil => contradiction
          | cons right rights =>
              rw [precedes] at front back ⊢
              split at front
              case isTrue same =>
                subst same
                split at back
                case isTrue same => exact (if_pos same).trans (ih front back)
                case isFalse different => exact (if_neg different).trans back
              case isFalse different =>
                split at back
                case isTrue same =>
                  subst same
                  rw [if_neg different]
                  exact front
                case isFalse =>
                  rw [decide_eq_true_iff] at front back
                  have before := String.lt_trans front back
                  rw [if_neg (Std.ne_of_lt before)]
                  exact decide_eq_true before

theorem not_precedes_self (location : Location) : ¬precedes location location := by
  induction location with
  | nil => exact Bool.false_ne_true
  | cons first rest ih => simpa [precedes] using ih

/-- A file that is passed over does not show. -/
theorem filterMap_place {α : Type} {find : Location × List UInt8 → Option α} {location : Location}
    (passed : ∀ bytes, find (location, bytes) = none) (bytes : List UInt8)
    (files : List (Location × List UInt8)) :
    (place location bytes files).filterMap find = files.filterMap find := by
  induction files with
  | nil => simp [place, passed]
  | cons file files ih =>
      obtain ⟨present, held⟩ := file
      rw [place]
      split
      case isTrue here =>
        subst here
        rw [List.filterMap_cons_none (passed _), List.filterMap_cons_none (passed _)]
      case isFalse =>
        split
        · rw [List.filterMap_cons_none (passed _)]
        · rw [List.filterMap_cons, List.filterMap_cons, ih]

/-- Files at different locations may be put into their places in either order. -/
theorem place_comm {location other : Location} (different : location ≠ other)
    (bytes content : List UInt8) (files : List (Location × List UInt8)) :
    place location bytes (place other content files) =
      place other content (place location bytes files) := by
  have either := precedes_or_precedes different
  have asymm {left right : Location} (before : precedes left right) : precedes right left = false :=
    Bool.eq_false_iff.2 fun behind => not_precedes_self left (precedes_trans before behind)
  induction files with
  | nil => rcases either with before | before <;>
      simp [place, different, Ne.symm different, before, asymm before]
  | cons file files ih =>
      obtain ⟨present, held⟩ := file
      by_cases here : present = location
      · subst here
        rcases either with before | before <;>
          simp [place, different, Ne.symm different, before, asymm before]
      by_cases there : present = other
      · subst there
        rcases either with before | before <;>
          simp [place, different, Ne.symm different, before, asymm before]
      -- the file in front stands behind both, between them, or before both
      cases front : precedes location present <;> cases back : precedes other present
      · simp [place, here, there, front, back, ih]
      · have before : precedes other location := either.resolve_left fun before => by
          simp [precedes_trans before back] at front
        simp [place, here, there, front, back, Ne.symm different, asymm before]
      · have before : precedes location other := either.resolve_right fun before => by
          simp [precedes_trans before front] at back
        simp [place, here, there, front, back, different, asymm before]
      · rcases either with before | before <;>
          simp [place, here, there, front, back, different, Ne.symm different, before,
            asymm before]

/-- A file that is put again is put once. -/
theorem place_place (location : Location) (bytes : List UInt8)
    (files : List (Location × List UInt8)) :
    place location bytes (place location bytes files) = place location bytes files := by
  induction files with
  | nil => simp [place]
  | cons file files ih =>
      obtain ⟨present, held⟩ := file
      by_cases here : present = location
      · simp [place, here]
      · by_cases before : precedes location present
        · simp [place, here, before]
        · simp [place, here, before, ih]

/-- A file is what was put there last. -/
theorem get?_put (tree : FileTree) (location other : Location) (bytes : List UInt8) :
    (tree.put location bytes).get? other =
      if other = location then some bytes else tree.get? other :=
  lookup_place location other bytes tree.files

theorem put_comm {location other : Location} (different : location ≠ other)
    (bytes content : List UInt8) (tree : FileTree) :
    (tree.put other content).put location bytes = (tree.put location bytes).put other content :=
  congrArg (FileTree.mk · tree.directories) (place_comm different bytes content tree.files)

theorem put_put (location : Location) (bytes : List UInt8) (tree : FileTree) :
    (tree.put location bytes).put location bytes = tree.put location bytes :=
  congrArg (FileTree.mk · tree.directories) (place_place location bytes tree.files)

@[simp]
theorem directories_put (tree : FileTree) (location : Location) (bytes : List UInt8) :
    (tree.put location bytes).directories = tree.directories := rfl

@[simp]
theorem hasDirectory_put (tree : FileTree) (location other : Location) (bytes : List UInt8) :
    (tree.put location bytes).hasDirectory other = tree.hasDirectory other := rfl

@[simp]
theorem accepts_put (tree : FileTree) (location other : Location) (bytes : List UInt8) :
    (tree.put location bytes).accepts other = tree.accepts other := rfl

/-! ## Several files -/

/-- The tree with the bytes of several files. -/
def putAll (tree : FileTree) (puts : List (Location × List UInt8)) : FileTree :=
  puts.foldl (fun tree file => tree.put file.1 file.2) tree

section

variable {puts others : List (Location × List UInt8)} {location : Location}

@[simp]
theorem putAll_cons (tree : FileTree) (file : Location × List UInt8) :
    tree.putAll (file :: puts) = (tree.put file.1 file.2).putAll puts := rfl

theorem putAll_append (tree : FileTree) :
    tree.putAll (puts ++ others) = (tree.putAll puts).putAll others :=
  List.foldl_append

@[simp]
theorem directories_putAll (tree : FileTree) (puts : List (Location × List UInt8)) :
    (tree.putAll puts).directories = tree.directories := by
  induction puts generalizing tree with
  | nil => rfl
  | cons file puts ih => rw [putAll_cons, ih, directories_put]

/-- Other files stay as they are. -/
theorem get?_putAll (elsewhere : location ∉ puts.map (·.1)) (tree : FileTree) :
    (tree.putAll puts).get? location = tree.get? location := by
  induction puts generalizing tree with
  | nil => rfl
  | cons file puts ih =>
      rw [List.map_cons, List.mem_cons, not_or] at elsewhere
      rw [putAll_cons, ih elsewhere.2, get?_put, if_neg elsewhere.1]

theorem putAll_put (elsewhere : location ∉ puts.map (·.1)) (bytes : List UInt8)
    (tree : FileTree) :
    (tree.put location bytes).putAll puts = (tree.putAll puts).put location bytes := by
  induction puts generalizing tree with
  | nil => rfl
  | cons file puts ih =>
      rw [List.map_cons, List.mem_cons, not_or] at elsewhere
      rw [putAll_cons, putAll_cons, put_comm (Ne.symm elsewhere.1), ih elsewhere.2]

/-- Files at different locations may be put in either order. -/
theorem putAll_comm (apart : (puts.map (·.1)).Disjoint (others.map (·.1))) (tree : FileTree) :
    (tree.putAll puts).putAll others = (tree.putAll others).putAll puts := by
  induction puts generalizing tree with
  | nil => rfl
  | cons file puts ih =>
      rw [List.map_cons, List.disjoint_cons_left] at apart
      rw [putAll_cons, putAll_cons, ih apart.2, putAll_put apart.1]

/-- Files at different locations that are put again are put once. -/
theorem putAll_putAll (distinct : (puts.map (·.1)).Nodup) (tree : FileTree) :
    (tree.putAll puts).putAll puts = tree.putAll puts := by
  induction puts generalizing tree with
  | nil => rfl
  | cons file puts ih =>
      rw [List.map_cons, List.nodup_cons] at distinct
      rw [putAll_cons, putAll_cons, ← putAll_put distinct.1, put_put, ih distinct.2]

end

/-! ## Reading what was written -/

/-- The bytes of a text are read as the text. -/
@[simp]
theorem textOf?_bytesOf (text : String) : textOf? (bytesOf text) = some text := by
  have valid : text.toUTF8.IsValidUTF8 := text.isValidUTF8
  rw [textOf?, bytesOf, Array.toArray_toList, String.fromUTF8?]
  exact dif_pos valid

/-! ## Trees that are alike -/

/-- Whether two trees have the same directories and the same files but for hidden ones. -/
structure SameBut (hidden : Location → Prop) (left right : FileTree) : Prop where
  directories : left.directories = right.directories
  files : ∀ location, ¬ hidden location → left.get? location = right.get? location

namespace SameBut

variable {hidden : Location → Prop} {left right : FileTree}

theorem refl (tree : FileTree) : SameBut hidden tree tree :=
  ⟨rfl, fun _ _ => rfl⟩

theorem hasDirectory (same : SameBut hidden left right) (location : Location) :
    left.hasDirectory location = right.hasDirectory location := by
  rw [FileTree.hasDirectory, FileTree.hasDirectory, same.directories]

theorem accepts (same : SameBut hidden left right) (location : Location) :
    left.accepts location = right.accepts location := by
  rw [FileTree.accepts, FileTree.accepts, same.hasDirectory, same.hasDirectory]

theorem obstacle (same : SameBut hidden left right) (path : String) :
    Disk.obstacle path left = Disk.obstacle path right := by
  rw [Disk.obstacle, Disk.obstacle, same.hasDirectory]

theorem put (same : SameBut hidden left right) (location : Location) (bytes : List UInt8) :
    SameBut hidden (left.put location bytes) (right.put location bytes) := by
  refine ⟨same.directories, fun other visible => ?_⟩
  rw [get?_put, get?_put, same.files other visible]

/-- A hidden file may be put on one side alone. -/
theorem put_hidden {location : Location} (isHidden : hidden location) (bytes : List UInt8) :
    SameBut hidden (left.put location bytes) left := by
  refine ⟨rfl, fun other visible => ?_⟩
  rw [get?_put, if_neg]
  rintro rfl
  exact visible isHidden

end SameBut
end FileTree
end Shakedown
