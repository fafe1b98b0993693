import Mathlib.Data.List.TakeDrop
import PhotoTags.Files.Tree

/-!
What a write or a copy changes in a file tree. A file is put at the place that its path leads to,
every other place keeps what stands there, and all paths lead where they led before: only directories
are passed on the way, and a write neither makes nor replaces one.
-/

namespace PhotoTags.FileTree

theorem read_eq_ok_iff {tree : FileTree} {path : Path} {content : Bytes} :
    tree.read path = .ok content ↔
      ∃ location, tree.locate path = .ok location ∧ tree.node? location = some (.file content) := by
  unfold read
  cases found : tree.locate path with
  | error cause => simp
  | ok location => cases held : tree.node? location with
    | none => simp [held]
    | some node => cases node <;> simp [held]

theorem locate_eq_ok_iff {tree : FileTree} {path : Path} {location : Location} :
    tree.locate path = .ok location ↔
      tree.locateParts path path.parts = .ok location ∧ location.any isTooLong = false := by
  unfold locate
  cases tree.locateParts path path.parts with
  | error cause => simp
  | ok place =>
      dsimp only
      split
      · rename_i long
        simp only [reduceCtorEq, Except.ok.injEq, false_iff, not_and]
        rintro rfl
        simp [long]
      · rename_i short
        simp only [Except.ok.injEq, iff_self_and]
        rintro rfl
        simpa using short

theorem target_eq_ok_iff {tree : FileTree} {path : Path} {location : Location} :
    tree.target path = .ok location ↔
      endsInSlash path = false ∧ tree.locate path = .ok location := by
  unfold target
  cases endsInSlash path with
  | false => simp
  | true =>
      simp only [if_true, Bool.true_eq_false, false_and, iff_false]
      split <;> simp

theorem writable_eq_ok_iff {tree : FileTree} {path : Path} {location : Location} :
    tree.writable path = .ok location ↔
      (endsInSlash path = false ∧ tree.locate path = .ok location) ∧
        tree.node? location ≠ some .directory ∧ tree.barrier? location ≠ some .sealed := by
  rw [← target_eq_ok_iff]
  unfold writable
  cases tree.target path with
  | error cause => simp
  | ok place =>
      dsimp only
      split
      · rename_i directory
        simp only [reduceCtorEq, Except.ok.injEq, false_iff, not_and]
        rintro rfl free
        exact absurd directory free
      · rename_i free
        split
        · rename_i closed
          simp only [reduceCtorEq, Except.ok.injEq, false_iff, not_and]
          rintro rfl -
          exact not_not_intro closed
        · rename_i unsealed
          simp only [Except.ok.injEq, iff_self_and]
          rintro rfl
          exact ⟨free, unsealed⟩

theorem write_eq_ok_iff {tree after : FileTree} {path : Path} {content : Bytes} :
    tree.write path content = .ok after ↔
      ∃ location, tree.writable path = .ok location ∧ tree.fitting location content = content ∧
        after = tree.put location (.file content) := by
  unfold write
  cases tree.writable path with
  | error cause => simp
  | ok location =>
      by_cases fits : tree.fitting location content = content
      · simp [fits, eq_comm]
      · simp [fits]

/-- Whether a file can be written is told by the place that the path leads to, and by how long the
file is. -/
theorem exists_write_iff {tree : FileTree} {path : Path} {content : Bytes} :
    (∃ after, tree.write path content = .ok after) ↔
      ∃ location, tree.writable path = .ok location ∧ tree.fitting location content = content := by
  simp only [write_eq_ok_iff]
  constructor
  · rintro ⟨after, location, found, fits, -⟩
    exact ⟨location, found, fits⟩
  · rintro ⟨location, found, fits⟩
    exact ⟨_, location, found, fits, rfl⟩

theorem fitting_eq_self_iff {tree : FileTree} {location : Location} {content : Bytes} :
    tree.fitting location content = content ↔
      ∀ bytes, tree.barrier? location = some (.room bytes) → content.length ≤ bytes := by
  unfold fitting
  split
  · rename_i bytes held
    simp [held, List.take_eq_self_iff]
  · rename_i free
    simp only [true_iff]
    exact fun bytes held => absurd held (free bytes)

theorem node?_root (tree : FileTree) : tree.node? [] = some .directory := by
  simp [node?]

theorem ne_nil_of_node? {tree : FileTree} {location : Location}
    (free : tree.node? location ≠ some .directory) : location ≠ [] := by
  rintro rfl
  exact free (node?_root tree)

@[simp]
theorem barriers_put (tree : FileTree) (location : Location) (node : FileNode) :
    (tree.put location node).barriers = tree.barriers :=
  rfl

theorem barrier?_congr {tree other : FileTree} (same : tree.barriers = other.barriers)
    (location : Location) : tree.barrier? location = other.barrier? location := by
  rw [barrier?, barrier?, same]

theorem fitting_congr {tree other : FileTree} (same : tree.barriers = other.barriers)
    (location : Location) (content : Bytes) :
    tree.fitting location content = other.fitting location content := by
  rw [fitting, fitting, barrier?_congr same]

section

variable {tree : FileTree} {location : Location} (free : tree.node? location ≠ some .directory)
  (content : Bytes)

include free

theorem node?_put_file (other : Location) :
    (tree.put location (.file content)).node? other =
      if location = other then some (.file content) else tree.node? other := by
  by_cases root : other = []
  · have elsewhere : location ≠ other := by
      rw [root]
      exact ne_nil_of_node? free
    rw [if_neg elsewhere, root, node?_root, node?_root]
  · exact node?_put tree location other _ root

theorem node?_put_directory_iff (other : Location) :
    (tree.put location (.file content)).node? other = some .directory ↔
      tree.node? other = some .directory := by
  rw [node?_put_file free]
  split
  · rename_i same
    rw [← same]
    simp [free]
  · rfl

theorem follow_put_iff (base : Location) (parts : List String) (found : Location) :
    (tree.put location (.file content)).follow base parts = .ok found ↔
      tree.follow base parts = .ok found := by
  induction parts generalizing base with
  | nil => simp [follow]
  | cons part rest ih =>
      have passed := node?_put_directory_iff free content (base ++ [part])
      simp only [follow]
      split
      · exact ih base
      · split
        · exact ih base.dropLast
        · split
          · rfl
          · split
            · rfl
            · -- Either both trees have a directory here or neither has one.
              by_cases directory : tree.node? (base ++ [part]) = some .directory
              · rw [directory, passed.mpr directory]
                exact ih (base ++ [part])
              · have blocked := fun there => directory (passed.mp there)
                rcases before : tree.node? (base ++ [part]) with _ | _ | _ <;>
                  rcases after : (tree.put location (.file content)).node? (base ++ [part]) with
                    _ | _ | _ <;> simp_all

theorem locateParts_put_iff (path : Path) (parts : List String) (found : Location) :
    (tree.put location (.file content)).locateParts path parts = .ok found ↔
      tree.locateParts path parts = .ok found := by
  unfold locateParts
  split
  · simp
  · split
    · simp
    · split
      · simp
      · exact follow_put_iff free content [] (tree.start path ++ parts) found

theorem locate_put_iff (path : Path) (found : Location) :
    (tree.put location (.file content)).locate path = .ok found ↔
      tree.locate path = .ok found := by
  rw [locate_eq_ok_iff, locate_eq_ok_iff, locateParts_put_iff free]

end

theorem node?_write {tree after : FileTree} {path : Path} {content : Bytes}
    (written : tree.write path content = .ok after) :
    ∃ place, tree.locate path = .ok place ∧ tree.node? place ≠ some .directory ∧
      ∀ location, after.node? location =
        if place = location then some (.file content) else tree.node? location := by
  obtain ⟨place, found, -, rfl⟩ := write_eq_ok_iff.mp written
  obtain ⟨⟨-, located⟩, free, -⟩ := writable_eq_ok_iff.mp found
  exact ⟨place, located, free, node?_put_file free content⟩

theorem locate_write_iff {tree after : FileTree} {path : Path} {content : Bytes}
    (written : tree.write path content = .ok after) (other : Path) (location : Location) :
    after.locate other = .ok location ↔ tree.locate other = .ok location := by
  obtain ⟨place, found, -, rfl⟩ := write_eq_ok_iff.mp written
  exact locate_put_iff (writable_eq_ok_iff.mp found).2.1 content other location

theorem barriers_write {tree after : FileTree} {path : Path} {content : Bytes}
    (written : tree.write path content = .ok after) : after.barriers = tree.barriers := by
  obtain ⟨place, -, -, rfl⟩ := write_eq_ok_iff.mp written
  rfl

theorem read_write {tree after : FileTree} {path : Path} {content : Bytes}
    (written : tree.write path content = .ok after) : after.read path = .ok content := by
  obtain ⟨place, found, _, nodes⟩ := node?_write written
  refine read_eq_ok_iff.mpr ⟨place, (locate_write_iff written path place).mpr found, ?_⟩
  rw [nodes, if_pos rfl]

theorem insertNode_insertNode (location : Location) (node : FileNode)
    (nodes : List (Location × FileNode)) :
    insertNode location node (insertNode location node nodes) = insertNode location node nodes := by
  induction nodes with
  | nil => simp [insertNode]
  | cons item rest ih =>
      obtain ⟨other, kept⟩ := item
      by_cases same : location = other
      · simp [insertNode, same]
      · by_cases before : location < other
        · simp [insertNode, same, before]
        · simp [insertNode, same, before, ih]

theorem write_again {tree after : FileTree} {path : Path} {content : Bytes}
    (written : tree.write path content = .ok after) : after.write path content = .ok after := by
  obtain ⟨place, found, fits, rfl⟩ := write_eq_ok_iff.mp written
  obtain ⟨⟨noSlash, located⟩, free, unsealed⟩ := writable_eq_ok_iff.mp found
  refine write_eq_ok_iff.mpr ⟨place, writable_eq_ok_iff.mpr ⟨⟨noSlash, ?_⟩, ?_, ?_⟩, ?_, ?_⟩
  · exact (locate_put_iff free content path place).mpr located
  · rw [node?_put_file free, if_pos rfl]
    simp
  · rwa [barrier?_congr (barriers_put ..)]
  · rwa [fitting_congr (barriers_put ..)]
  · simp only [put, insertNode_insertNode]

/-- A copy that gets as far as its destination puts there what fits; any other changes nothing. -/
theorem copy_cases (tree : FileTree) (source destination : Path) :
    (∃ cause, tree.copy source destination = (.error cause, tree)) ∨
      ∃ content location, tree.read source = .ok content ∧
        tree.writable destination = .ok location ∧
        tree.copy source destination =
          (if tree.fitting location content = content then .ok () else .error .noRoom,
            tree.put location (.file (tree.fitting location content))) := by
  unfold copy
  cases tree.read source with
  | error cause => exact .inl ⟨cause, rfl⟩
  | ok content =>
      cases tree.writable destination with
      | error cause => exact .inl ⟨cause, rfl⟩
      | ok location => exact .inr ⟨content, location, rfl, rfl, rfl⟩

theorem holds_iff {tree : FileTree} {path : Path} :
    tree.holds path = true ↔
      ∃ location, tree.locate path = .ok location ∧ tree.node? location ≠ none := by
  unfold holds nodeAt?
  cases tree.locate path with
  | error cause => simp
  | ok location => simp [Option.isSome_iff_ne_none]

theorem holds_of_read {tree : FileTree} {path : Path} {content : Bytes}
    (read : tree.read path = .ok content) : tree.holds path = true := by
  obtain ⟨location, found, file⟩ := read_eq_ok_iff.mp read
  refine holds_iff.mpr ⟨location, found, ?_⟩
  rw [file]
  exact Option.some_ne_none _

theorem node?_of_not_holds {tree : FileTree} {path : Path} {location : Location}
    (missing : tree.holds path = false) (found : tree.locate path = .ok location) :
    tree.node? location = none := by
  by_contra held
  rw [holds_iff.mpr ⟨location, found, held⟩] at missing
  cases missing

theorem locate_copy_iff (tree : FileTree) (source destination other : Path) (location : Location) :
    (tree.copy source destination).2.locate other = .ok location ↔
      tree.locate other = .ok location := by
  rcases tree.copy_cases source destination with ⟨cause, failed⟩ | ⟨bytes, place, -, found, copied⟩
  · rw [failed]
  · rw [copied]
    exact locate_put_iff (writable_eq_ok_iff.mp found).2.1 _ other location

theorem holds_copy {tree : FileTree} {source destination : Path}
    (done : (tree.copy source destination).1 = .ok ()) :
    (tree.copy source destination).2.holds destination = true := by
  rcases tree.copy_cases source destination with ⟨cause, failed⟩ | ⟨bytes, place, -, found, copied⟩
  · simp [failed] at done
  · obtain ⟨⟨-, located⟩, free, -⟩ := writable_eq_ok_iff.mp found
    have file := node?_put_file free (tree.fitting place bytes) place
    rw [if_pos rfl] at file
    rw [copied]
    exact holds_of_read
      (read_eq_ok_iff.mpr ⟨place, (locate_put_iff free _ destination place).mpr located, file⟩)

end PhotoTags.FileTree
