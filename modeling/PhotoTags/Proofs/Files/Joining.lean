import PhotoTags.Proofs.Files.Places

/-!
Where joined paths lead. The path of a directory, joined with the rest of the way to something below
it, leads there as long as it does not become too long, whichever way the path of the directory is
written.
-/

namespace PhotoTags

namespace Path

theorem parts_of_slash {path : Path} (slash : FileTree.endsInSlash path = true) :
    ∃ front, path.text.toList = front ++ ['/'] ∧
      path.parts = (Text.fields '/' front).map String.ofList ++ [""] := by
  have ends : path.text.toList.getLast? = some '/' := by simpa [FileTree.endsInSlash] using slash
  obtain ⟨front, text⟩ := List.getLast?_eq_some_iff.mp ends
  refine ⟨front, text, ?_⟩
  rw [parts, text, Text.fields_append_mark, List.map_append]
  rfl

theorem text_join {path : Path} (given : path.text ≠ "") (rest : List String) :
    (path.join rest).text.toList =
      if FileTree.endsInSlash path then
        path.text.toList ++ Text.joined '/' (rest.map String.toList)
      else path.text.toList ++ '/' :: Text.joined '/' (rest.map String.toList) := by
  have nonempty : path.text.toList ≠ [] := by simpa using given
  by_cases slash : path.text.toList.getLast? = some '/'
  · simp [join, FileTree.endsInSlash, slash]
  · simp [join, FileTree.endsInSlash, slash, nonempty]

/-- The rest of the way stands behind the parts of a path, in the place of the empty one behind a
slash at its end. -/
theorem parts_join {path : Path} {rest : List String} (given : path.text ≠ "") (further : rest ≠ [])
    (noSlash : ∀ name ∈ rest, '/' ∉ name.toList) :
    (path.join rest).parts =
      (if FileTree.endsInSlash path then path.parts.dropLast else path.parts) ++ rest := by
  have below : Text.fields '/' (Text.joined '/' (rest.map String.toList)) =
      rest.map String.toList := by
    refine Text.fields_joined (by simpa using further) ?_
    intro part member
    obtain ⟨name, inside, rfl⟩ := List.mem_map.mp member
    exact noSlash name inside
  have back : (rest.map String.toList).map String.ofList = rest := by simp
  rw [parts, text_join given]
  split
  · rename_i slash
    obtain ⟨front, text, own⟩ := parts_of_slash slash
    rw [own, List.dropLast_concat, text, List.append_assoc, List.singleton_append,
      Text.fields_append_mark, below, List.map_append, back]
  · rw [Text.fields_append_mark, below, List.map_append, back, parts]

theorem isAbsolute_join {path : Path} (given : path.text ≠ "") (rest : List String) :
    (path.join rest).isAbsolute = path.isAbsolute := by
  obtain ⟨first, others, text⟩ : ∃ first others, path.text.toList = first :: others :=
    List.exists_cons_of_ne_nil (by simpa using given)
  rw [isAbsolute, text_join given, isAbsolute, text]
  split <;> rfl

theorem not_mem_joined {mark c : Char} {texts : List (List Char)} (differ : c ≠ mark)
    (free : ∀ text ∈ texts, c ∉ text) : c ∉ Text.joined mark texts := by
  induction texts with
  | nil => simp [Text.joined]
  | cons text rest ih =>
      obtain ⟨first, later⟩ := List.forall_mem_cons.mp free
      cases rest with
      | nil => exact first
      | cons next others => simp [Text.joined, first, differ, ih later]

theorem nul_not_mem_join {path : Path} {rest : List String} (given : path.text ≠ "")
    (noNul : '\x00' ∉ path.text.toList) (free : ∀ name ∈ rest, '\x00' ∉ name.toList) :
    '\x00' ∉ (path.join rest).text.toList := by
  have below : '\x00' ∉ Text.joined '/' (rest.map String.toList) := by
    refine not_mem_joined (by decide) fun text member => ?_
    obtain ⟨name, inside, rfl⟩ := List.mem_map.mp member
    exact free name inside
  rw [text_join given]
  split <;> simp [noNul, below]

theorem join_injective {path : Path} {rest other : List String} (given : path.text ≠ "")
    (further : rest ≠ []) (otherFurther : other ≠ []) (noSlash : ∀ name ∈ rest, '/' ∉ name.toList)
    (otherNoSlash : ∀ name ∈ other, '/' ∉ name.toList) (same : path.join rest = path.join other) :
    rest = other := by
  have parts := congrArg Path.parts same
  rw [parts_join given further noSlash, parts_join given otherFurther otherNoSlash] at parts
  exact List.append_cancel_left parts

end Path

namespace FileTree

theorem follow_concat_blank {tree : FileTree} {start place : Location} {parts : List String}
    (led : tree.follow start parts = .ok place) (directory : tree.node? place = some .directory)
    (short : ∀ name ∈ place, isTooLong name = false) :
    tree.follow start (parts ++ [""]) = .ok place := by
  induction parts generalizing start with
  | nil => simpa [follow] using led
  | cons part rest ih =>
      rw [List.cons_append]
      simp only [follow] at led ⊢
      split at led
      · rename_i blank
        rw [if_pos blank]
        exact ih led
      · rename_i notBlank
        rw [if_neg notBlank]
        split at led
        · rename_i parent
          rw [if_pos parent]
          exact ih led
        · rename_i notParent
          rw [if_neg notParent, if_neg (by simp)]
          split at led
          · rename_i last
            obtain rfl := Except.ok.inj led
            rw [if_neg (by simp [short part]), directory, last]
            simp [follow]
          · split at led
            · simp at led
            · rename_i partShort
              rw [if_neg partShort]
              split at led
              · simp at led
              · simp at led
              · exact ih led

theorem start_join {tree : FileTree} {path : Path} {base : Location}
    (led : tree.locate path = .ok base) (rest : List String) :
    tree.start (path.join rest) = tree.start path := by
  rw [start, start, Path.isAbsolute_join (locate_eq_ok_iff_follow.mp led).1.2.2]

section

variable {tree : FileTree} (wellFormed : tree.WellFormed) {path : Path} {base rest : Location}
  {node : FileNode} (led : tree.locate path = .ok base) (further : rest ≠ [])
  (there : tree.node? (base ++ rest) = some node)

include wellFormed led further there

theorem follow_join :
    tree.follow [] (tree.start path ++ (path.join rest).parts) = .ok (base ++ rest) := by
  obtain ⟨⟨-, -, given⟩, followed, short⟩ := locate_eq_ok_iff_follow.mp led
  have directory := wellFormed.directory_of_node? further there
  have noSlash (name : String) (member : name ∈ rest) : '/' ∉ name.toList :=
    (wellFormed.isEntry_of_node? there name (List.mem_append_right _ member)).noSlash
  rw [Path.parts_join given further noSlash]
  split
  · rename_i slash
    obtain ⟨front, -, own⟩ := Path.parts_of_slash slash
    rw [own, ← List.append_assoc] at followed
    rw [own, List.dropLast_concat, ← List.append_assoc, follow_append _ _ _ further, followed]
    exact wellFormed.follow_below there
  · rw [← List.append_assoc, follow_append _ _ _ further, follow_concat_blank followed directory short]
    exact wellFormed.follow_below there

/-- The path of a directory leads on to all that is below it, unless it gets too long. -/
theorem locate_join_iff : tree.locate (path.join rest) = .ok (base ++ rest) ↔
    Text.byteLength (path.join rest).text.toList ≤ maxPathLength := by
  obtain ⟨⟨noNul, -, given⟩, -, -⟩ := locate_eq_ok_iff_follow.mp led
  have entries := wellFormed.isEntry_of_node? there
  rw [locate_eq_ok_iff_follow, start_join led]
  constructor
  · exact fun found => found.1.2.1
  · intro short
    refine ⟨⟨?_, short, ?_⟩, follow_join wellFormed led further there,
      fun name member => (entries name member).short⟩
    · exact Path.nul_not_mem_join given noNul fun name member =>
        (entries name (List.mem_append_right _ member)).noNul
    · intro empty
      have text := Path.text_join given rest
      rw [empty] at text
      split at text <;> simp_all

end

/-- A path to a file ends in the name of the file, but for blank parts. -/
theorem fileName?_of_file {tree : FileTree} {path : Path} {place : Location} {content : Bytes}
    (found : tree.locate path = .ok place) (file : tree.node? place = some (.file content)) :
    ∃ directory name, path.fileName? = some name ∧ place = directory ++ [String.ofList name] := by
  obtain ⟨front, blanks, -, whole, blank⟩ := path.fields_split
  have own : path.parts = front.map String.ofList ++
      String.ofList path.split.2 :: blanks.map String.ofList := by
    rw [Path.parts, whole, List.map_append, List.map_cons]
  have blankParts : ∀ part ∈ blanks.map String.ofList, Path.IsBlank part := by
    intro part member
    obtain ⟨chars, inside, rfl⟩ := List.mem_map.mp member
    exact (blank chars inside).imp (fun same => by rw [same]) fun same => by rw [same]
  by_cases isName : Path.IsName (String.ofList path.split.2)
  · obtain ⟨directory, -, split⟩ := exists_directory own isName blankParts found
    refine ⟨directory, path.split.2, ?_, split⟩
    have named : ¬ (path.split.2 = [] ∨ path.split.2 = ['.'] ∨ path.split.2 = ['.', '.']) := by
      rintro (empty | dot | dots)
      · exact isName.1 (by rw [empty])
      · exact isName.2.1 (by rw [dot])
      · exact isName.2.2 (by rw [dots])
    simp only [Path.fileName?, if_neg named]
  · -- No part at the end is a name, so that the path leads to a directory.
    have rooted : tree.IsRooted place := by
      refine isRooted_follow (isRooted_nil tree) ?_ (follow_of_locate found)
      intro part isLast
      rw [own, ← List.append_assoc] at isLast
      rcases List.eq_nil_or_concat (blanks.map String.ofList) with none | ⟨others, last, split⟩
      · rw [none, List.getLast?_concat] at isLast
        exact Option.some.inj isLast ▸ isName
      · rw [split, List.concat_eq_append, ← List.cons_append, ← List.append_assoc,
          List.getLast?_concat] at isLast
        have isBlank := blankParts last (by simp [split])
        obtain rfl := Option.some.inj isLast
        exact fun name => isBlank.elim name.1 name.2.1
    simp [rooted place (List.prefix_refl _)] at file

end FileTree

end PhotoTags
