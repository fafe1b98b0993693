import Mathlib.Data.List.Induction
import Mathlib.Data.List.Nodup
import Mathlib.Data.String.Basic
import PhotoTags.Proofs.Files.Paths

/-!
Trees as a system keeps them: in order, each place once, and everything in a directory that is there.
All that is there can be reached part by part. Writing a file keeps a tree so.
-/

namespace PhotoTags

namespace Path

structure IsEntry (name : String) : Prop where
  isName : IsName name
  noSlash : '/' ∉ name.toList
  noNul : '\x00' ∉ name.toList
  short : FileTree.isTooLong name = false

instance (part : String) : Decidable (IsName part) :=
  inferInstanceAs (Decidable (part ≠ "" ∧ part ≠ "." ∧ part ≠ ".."))

instance (name : String) : Decidable (IsEntry name) :=
  decidable_of_iff (IsName name ∧ '/' ∉ name.toList ∧ '\x00' ∉ name.toList ∧
      FileTree.isTooLong name = false)
    ⟨fun ⟨isName, noSlash, noNul, short⟩ => ⟨isName, noSlash, noNul, short⟩,
      fun ⟨isName, noSlash, noNul, short⟩ => ⟨isName, noSlash, noNul, short⟩⟩

theorem isEntry_of_mem_parts {path : Path} {part : String} (member : part ∈ path.parts)
    (isName : IsName part) (noNul : '\x00' ∉ path.text.toList)
    (short : FileTree.isTooLong part = false) : IsEntry part := by
  obtain ⟨chars, inside, rfl⟩ := List.mem_map.mp member
  have within := Text.mem_of_mem_fields inside
  refine ⟨isName, ?_, ?_, short⟩
  · rw [String.toList_ofList]
    exact fun slash => (within '/' slash).2 rfl
  · rw [String.toList_ofList]
    exact fun nul => noNul (within _ nul).1

end Path

namespace FileTree

structure WellFormed (tree : FileTree) : Prop where
  ordered : tree.nodes.Pairwise (·.1 < ·.1)
  held : ∀ item ∈ tree.nodes, ∃ directory name, item.1 = directory ++ [name] ∧
    Path.IsEntry name ∧ tree.node? directory = some .directory

namespace WellFormed

variable {tree : FileTree} (wellFormed : tree.WellFormed)

include wellFormed

theorem nodup_locations : (tree.nodes.map (·.1)).Nodup :=
  List.pairwise_map.mpr (wellFormed.ordered.imp fun before => before.ne)

theorem mem_nodes_iff {location : Location} {node : FileNode} (below : location ≠ []) :
    (location, node) ∈ tree.nodes ↔ tree.node? location = some node := by
  rw [node?, if_neg below, Option.map_eq_some_iff]
  constructor
  · intro member
    cases found : tree.nodes.find? (·.1 == location) with
    | none =>
        have absent := List.find?_eq_none.mp found (location, node) member
        simp at absent
    | some item =>
        have sameLocation : item.1 = location := by simpa using List.find?_some found
        have sameItem : item = (location, node) :=
          List.inj_on_of_nodup_map wellFormed.nodup_locations (List.mem_of_find?_eq_some found)
            member sameLocation
        exact ⟨item, rfl, by rw [sameItem]⟩
  · rintro ⟨item, found, rfl⟩
    have sameLocation : item.1 = location := by simpa using List.find?_some found
    rw [← sameLocation]
    exact List.mem_of_find?_eq_some found

theorem held_of_node? {directory : Location} {name : String} {node : FileNode}
    (there : tree.node? (directory ++ [name]) = some node) :
    Path.IsEntry name ∧ tree.node? directory = some .directory := by
  have listed := (wellFormed.mem_nodes_iff (by simp)).mpr there
  obtain ⟨other, own, split, isEntry, directoryThere⟩ := wellFormed.held _ listed
  obtain ⟨rfl, same⟩ := List.append_inj' split rfl
  obtain rfl := List.singleton_inj.mp same
  exact ⟨isEntry, directoryThere⟩

/-- What is there is below directories all the way. -/
theorem directory_of_node? {front back : Location} {node : FileNode} (below : back ≠ [])
    (there : tree.node? (front ++ back) = some node) : tree.node? front = some .directory := by
  induction back using List.reverseRecOn generalizing node with
  | nil => exact absurd rfl below
  | append_singleton back name ih =>
      rw [← List.append_assoc] at there
      have above := (wellFormed.held_of_node? there).2
      by_cases last : back = []
      · rwa [last, List.append_nil] at above
      · exact ih last above

theorem isEntry_of_node? {location : Location} {node : FileNode}
    (there : tree.node? location = some node) : ∀ name ∈ location, Path.IsEntry name := by
  induction location using List.reverseRecOn generalizing node with
  | nil => simp
  | append_singleton directory last ih =>
      obtain ⟨isEntry, above⟩ := wellFormed.held_of_node? there
      intro name member
      rcases List.mem_append.mp member with inside | own
      · exact ih above name inside
      · exact List.mem_singleton.mp own ▸ isEntry

theorem follow_below {base rest : Location} {node : FileNode}
    (there : tree.node? (base ++ rest) = some node) : tree.follow base rest = .ok (base ++ rest) := by
  have entries := wellFormed.isEntry_of_node? there
  induction rest generalizing base with
  | nil => simp [follow]
  | cons name rest ih =>
      have isEntry := entries name (by simp)
      rw [follow, if_neg (not_or.mpr ⟨isEntry.isName.1, isEntry.isName.2.1⟩),
        if_neg isEntry.isName.2.2]
      rw [List.append_cons base name rest] at there entries ⊢
      by_cases last : rest = []
      · simp [last]
      · have above := wellFormed.directory_of_node? last there
        rw [if_neg last, if_neg (by simp [isEntry.short]), above]
        exact ih there entries

end WellFormed

theorem locate_eq_ok_iff_follow {tree : FileTree} {path : Path} {location : Location} :
    tree.locate path = .ok location ↔
      ('\x00' ∉ path.text.toList ∧ Text.byteLength path.text.toList ≤ maxPathLength ∧
        path.text ≠ "") ∧
      tree.follow [] (tree.start path ++ path.parts) = .ok location ∧
        ∀ name ∈ location, isTooLong name = false := by
  rw [locate_eq_ok_iff, locateParts, List.any_eq_false]
  simp only [Bool.not_eq_true, ← and_assoc]
  refine and_congr_left fun _ => ?_
  split
  · rename_i nul
    simp [List.contains_iff_mem.mp nul]
  · rename_i noNul
    split
    · rename_i long
      simp [Nat.not_le.mpr long]
    · rename_i short
      split
      · rename_i empty
        simp [empty]
      · rename_i given
        have visible : '\x00' ∉ path.text.toList := fun member =>
          noNul (List.contains_iff_mem.mpr member)
        simp [visible, Nat.not_lt.mp short, given]

theorem exists_base {tree : FileTree} {path : Path} {location : Location}
    (found : tree.locate path = .ok location) :
    ∃ base, tree.IsRooted base ∧ tree.follow base path.parts = .ok location := by
  have given : path.parts ≠ [] := by simp [Path.parts, Text.fields_ne_nil]
  have led := follow_of_locate found
  rw [follow_append _ _ _ given] at led
  cases passed : tree.follow [] (tree.start path ++ [""]) with
  | error cause =>
      rw [passed] at led
      simp [Except.bind] at led
  | ok base =>
      rw [passed] at led
      refine ⟨base, isRooted_follow (isRooted_nil tree) ?_ passed, led⟩
      intro part isLast
      rw [List.getLast?_concat] at isLast
      exact fun name => name.1 (Option.some.inj isLast).symm

/-- The parts of a path lead to a directory, or to a name in one. -/
theorem follow_cases {tree : FileTree} {start place : Location} {parts : List String}
    (rooted : tree.IsRooted start) (led : tree.follow start parts = .ok place) :
    tree.IsRooted place ∨ ∃ directory name, place = directory ++ [name] ∧
      tree.IsRooted directory ∧ name ∈ parts ∧ Path.IsName name := by
  induction parts generalizing start with
  | nil => exact .inl (Except.ok.inj led ▸ rooted)
  | cons part rest ih =>
      have later {start : Location} (rooted : tree.IsRooted start)
          (led : tree.follow start rest = .ok place) : tree.IsRooted place ∨
            ∃ directory name, place = directory ++ [name] ∧ tree.IsRooted directory ∧
              name ∈ part :: rest ∧ Path.IsName name := by
        refine (ih rooted led).imp_right ?_
        rintro ⟨directory, name, own, above, member, isName⟩
        exact ⟨directory, name, own, above, List.mem_cons_of_mem part member, isName⟩
      simp only [follow] at led
      split at led
      · exact later rooted led
      · rename_i notBlank
        split at led
        · exact later rooted.dropLast led
        · rename_i notParent
          split at led
          · rw [not_or] at notBlank
            exact .inr ⟨start, part, (Except.ok.inj led).symm, rooted, List.mem_cons_self ..,
              notBlank.1, notBlank.2, notParent⟩
          · split at led
            · simp at led
            · split at led
              · simp at led
              · simp at led
              · rename_i directory
                exact later (rooted.concat directory) led

/-- A path that does not lead to a directory leads to where an entry of one can stand. -/
theorem exists_entry {tree : FileTree} {path : Path} {place : Location}
    (found : tree.locate path = .ok place) (free : tree.node? place ≠ some .directory) :
    ∃ directory name, place = directory ++ [name] ∧ Path.IsEntry name ∧
      tree.node? directory = some .directory := by
  obtain ⟨⟨noNul, -⟩, -, short⟩ := locate_eq_ok_iff_follow.mp found
  obtain ⟨base, baseRooted, led⟩ := exists_base found
  rcases follow_cases baseRooted led with rooted | ⟨directory, name, rfl, above, member, isName⟩
  · exact absurd (rooted place (List.prefix_refl _)) free
  · exact ⟨directory, name, rfl,
      Path.isEntry_of_mem_parts member isName noNul (short name (by simp)),
      above directory (List.prefix_refl _)⟩

theorem mem_insertNode {location : Location} {node : FileNode} {nodes : List (Location × FileNode)}
    {item : Location × FileNode} (member : item ∈ insertNode location node nodes) :
    item = (location, node) ∨ item ∈ nodes := by
  induction nodes with
  | nil => simpa [insertNode] using member
  | cons first rest ih =>
      obtain ⟨other, kept⟩ := first
      simp only [insertNode] at member
      split at member
      · exact (List.mem_cons.mp member).imp_right (List.mem_cons_of_mem _)
      · split at member
        · exact List.mem_cons.mp member
        · rcases List.mem_cons.mp member with rfl | behind
          · exact .inr (List.mem_cons_self ..)
          · exact (ih behind).imp_right (List.mem_cons_of_mem _)

theorem ordered_insertNode {nodes : List (Location × FileNode)} (location : Location)
    (node : FileNode) (ordered : nodes.Pairwise (·.1 < ·.1)) :
    (insertNode location node nodes).Pairwise (·.1 < ·.1) := by
  induction nodes with
  | nil => simp [insertNode]
  | cons first rest ih =>
      obtain ⟨other, kept⟩ := first
      obtain ⟨firstBefore, restOrdered⟩ := List.pairwise_cons.mp ordered
      simp only [insertNode]
      split
      · rename_i same
        subst other
        exact List.pairwise_cons.mpr ⟨firstBefore, restOrdered⟩
      · rename_i different
        split
        · rename_i before
          refine List.pairwise_cons.mpr ⟨?_, ordered⟩
          intro item member
          rcases List.mem_cons.mp member with rfl | behind
          · exact before
          · exact before.trans (firstBefore item behind)
        · rename_i notBefore
          refine List.pairwise_cons.mpr ⟨?_, ih restOrdered⟩
          intro item member
          rcases mem_insertNode member with rfl | old
          · exact lt_of_le_of_ne (not_lt.mp notBefore) (Ne.symm different)
          · exact firstBefore item old

theorem wellFormed_empty : WellFormed empty := by
  constructor
  · exact .nil
  · simp [empty]

theorem WellFormed.put_file {tree : FileTree} (wellFormed : tree.WellFormed) {path : Path}
    {place : Location} (found : tree.locate path = .ok place)
    (free : tree.node? place ≠ some .directory) (content : Bytes) :
    (tree.put place (.file content)).WellFormed := by
  have kept (location : Location) (there : tree.node? location = some .directory) :
      (tree.put place (.file content)).node? location = some .directory :=
    (node?_put_directory_iff free content location).mpr there
  constructor
  · exact ordered_insertNode place _ wellFormed.ordered
  · intro item member
    rcases mem_insertNode member with rfl | old
    · obtain ⟨directory, name, own, isEntry, above⟩ := exists_entry found free
      exact ⟨directory, name, own, isEntry, kept directory above⟩
    · obtain ⟨directory, name, own, isEntry, above⟩ := wellFormed.held item old
      exact ⟨directory, name, own, isEntry, kept directory above⟩

theorem WellFormed.write {tree after : FileTree} (wellFormed : tree.WellFormed) {path : Path}
    {content : Bytes} (written : tree.write path content = .ok after) : after.WellFormed := by
  obtain ⟨place, found, -, rfl⟩ := write_eq_ok_iff.mp written
  obtain ⟨⟨-, located⟩, free, -⟩ := writable_eq_ok_iff.mp found
  exact wellFormed.put_file located free content

end FileTree

end PhotoTags
