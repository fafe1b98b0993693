import PhotoTags.Image.Save
import PhotoTags.Proofs.Files.Paths

/-!
What the backups of files are called. The backup of a file whose name has an extension is called as
the file, with the mark behind it; a name without an extension gets a dot more, so that it has its
backup in common with the name that ends in that dot. No other two names of a directory have.
-/

namespace PhotoTags

namespace Path

def leading : List String → List String
  | [] => []
  | first :: rest =>
      (if first = "" then "/" else first) :: rest.filter fun part => part ≠ "" ∧ part ≠ "."

theorem components_eq {path : Path} {front blanks : List String} {name : String}
    (own : path.parts = front ++ name :: blanks) (isName : IsName name)
    (blank : ∀ part ∈ blanks, IsBlank part) : path.components = leading front ++ [name] := by
  have dropped : ∀ part ∈ blanks, ¬ part = "" → part = "." :=
    fun part member => (blank part member).resolve_left
  cases front with
  | nil => simpa [components, own, isName.1, leading] using dropped
  | cons first rest =>
      by_cases rooted : first = ""
      · subst first
        have absolute : path.isAbsolute = true :=
          isAbsolute_iff_parts.mpr ⟨rest ++ name :: blanks, by simp, own⟩
        simpa [components, own, isName.1, isName.2.1, leading, absolute] using dropped
      · simpa [components, own, isName.1, isName.2.1, leading, rooted] using dropped

/-- A file and its backup differ in the last component only. -/
theorem components_backup {path : Path} {name : List Char} (named : path.fileName? = some name) :
    ∃ directory, path.components = directory ++ [String.ofList name] ∧
      path.backup.components = directory ++ [String.ofList (backupName name)] := by
  obtain ⟨front, blanks, own, other, blank⟩ := parts_backup_of_fileName? named
  have isName : IsName (String.ofList (backupName name)) := by
    rw [backupName, backupEnding]
    split
    · have marked := isName_append_backupMark (name ++ ['.'])
      rwa [List.append_assoc, List.singleton_append] at marked
    · exact isName_append_backupMark name
  exact ⟨leading front, components_eq own (fileName?_eq_some named).2 blank,
    components_eq other isName (by simp)⟩

def Shadows (name other : List Char) : Prop :=
  (stemAndExtension name).2 = none ∧ other = name ++ ['.']

theorem extension_append_dot {name : List Char} (nonempty : name ≠ []) :
    (stemAndExtension (name ++ ['.'])).2 = some [] := by
  have cut : Text.cutAt '.' ('.' :: name.reverse) = some ([], name.reverse) :=
    Text.cutAt_eq_some_iff.mpr ⟨rfl, by simp⟩
  rw [stemAndExtension, List.reverse_append, List.reverse_singleton, List.singleton_append, cut]
  simp [nonempty]

theorem backupName_of_shadows {name other : List Char} (nonempty : name ≠ [])
    (shadows : Shadows name other) : backupName name = backupName other := by
  obtain ⟨bare, rfl⟩ := shadows
  have dotted := extension_append_dot nonempty
  simp [backupName, backupEnding, bare, dotted]

theorem eq_of_backupName {name other : List Char} (same : backupName name = backupName other) :
    name = other ∨ Shadows name other ∨ Shadows other name := by
  simp only [backupName, backupEnding] at same
  -- The endings differ only if one of the names has an extension and the other has none.
  cases bare : (stemAndExtension name).2 with
  | none =>
      cases otherBare : (stemAndExtension other).2 with
      | none =>
          rw [if_pos bare, if_pos otherBare] at same
          exact .inl (List.append_cancel_right same)
      | some extension =>
          rw [if_pos bare, if_neg (by simp [otherBare]), List.append_cons] at same
          exact .inr (.inl ⟨bare, (List.append_cancel_right same).symm⟩)
  | some extension =>
      cases otherBare : (stemAndExtension other).2 with
      | none =>
          rw [if_neg (by simp [bare]), if_pos otherBare, List.append_cons other] at same
          exact .inr (.inr ⟨otherBare, List.append_cancel_right same⟩)
      | some otherExtension =>
          rw [if_neg (by simp [bare]), if_neg (by simp [otherBare])] at same
          exact .inl (List.append_cancel_right same)

theorem backupName_eq_iff {name other : List Char} (nonempty : name ≠ [])
    (otherNonempty : other ≠ []) :
    backupName name = backupName other ↔
      name = other ∨ Shadows name other ∨ Shadows other name := by
  refine ⟨eq_of_backupName, ?_⟩
  rintro (rfl | shadows | shadows)
  · rfl
  · exact backupName_of_shadows nonempty shadows
  · exact (backupName_of_shadows otherNonempty shadows).symm

theorem ne_nil_of_fileName? {path : Path} {name : List Char} (named : path.fileName? = some name) :
    name ≠ [] := by
  rintro rfl
  exact (fileName?_eq_some named).2.1 rfl

end Path

/-- The backup of a file stands beside it. It is called as the file with the mark behind its name if
and only if the name has an extension, and else there is a dot more. Two files of one directory with
different names have one backup between them if and only if one of the names has no extension and
the other is that name with a dot behind it. -/
theorem backup_called_as_file {path : Path} {name : List Char}
    (named : path.fileName? = some name) :
    path.backup.text.toList = path.split.1 ++ Path.backupName name ∧
    (Path.backupName name = name ++ ['.', 'b', 'a', 'k'] ↔ path.extension? ≠ none) ∧
    (path.extension? = none → Path.backupName name = name ++ ['.', '.', 'b', 'a', 'k']) ∧
    (∃ directory, path.components = directory ++ [String.ofList name] ∧
      path.backup.components = directory ++ [String.ofList (Path.backupName name)]) ∧
    ∀ (other : Path) (otherName : List Char), other.fileName? = some otherName →
      path.components.dropLast = other.components.dropLast → name ≠ otherName →
        (path.backup.same other.backup = true ↔
          Path.Shadows name otherName ∨ Path.Shadows otherName name) := by
  have extended : path.extension? = (Path.stemAndExtension name).2 := by
    rw [Path.extension?, named, Option.bind_some]
  refine ⟨Path.text_backup named, ?_, ?_, Path.components_backup named, ?_⟩
  · rw [extended, Path.backupName, List.append_cancel_left_eq, Path.backupEnding]
    split <;> simp_all [Path.backupMark]
  · intro bare
    rw [Path.backupName, Path.backupEnding, if_pos (extended ▸ bare), Path.backupMark]
  · intro other otherName otherNamed beside different
    obtain ⟨directory, own, backup⟩ := Path.components_backup named
    obtain ⟨otherDirectory, otherOwn, otherBackup⟩ := Path.components_backup otherNamed
    obtain rfl : directory = otherDirectory := by simpa [own, otherOwn] using beside
    have shared := Path.backupName_eq_iff (Path.ne_nil_of_fileName? named)
      (Path.ne_nil_of_fileName? otherNamed)
    rw [or_iff_right different] at shared
    have written : String.ofList (Path.backupName name) = String.ofList (Path.backupName otherName) ↔
        Path.backupName name = Path.backupName otherName := String.ofList_inj
    rw [← shared, Path.same, decide_eq_true_iff, backup, otherBackup, List.append_cancel_left_eq,
      List.singleton_inj, written]

theorem backup_called_as_file_photo :
    (Path.mk "sub/photo").backup.text = "sub/photo..bak" ∧
    (Path.mk "sub/photo.jpg").backup.text = "sub/photo.jpg.bak" ∧
    ((Path.mk "sub/photo").backup.same (Path.mk "sub//photo./").backup = true ↔
      Path.Shadows "photo".toList "photo.".toList ∨
        Path.Shadows "photo.".toList "photo".toList) := by
  have plain : (Path.mk "sub/photo").fileName? = some "photo".toList := by decide
  have extended : (Path.mk "sub/photo.jpg").fileName? = some "photo.jpg".toList := by decide
  have dotted : (Path.mk "sub//photo./").fileName? = some "photo.".toList := by decide
  refine ⟨?_, ?_, ?_⟩
  · rw [← String.toList_inj, (backup_called_as_file plain).1,
      (backup_called_as_file plain).2.2.1 (by decide)]
    decide
  · rw [← String.toList_inj, (backup_called_as_file extended).1,
      (backup_called_as_file extended).2.1.mpr (by decide)]
    decide
  · exact (backup_called_as_file plain).2.2.2.2 _ _ dotted (by decide) (by decide)

/-- Of two files next to each other the second one gets no backup, as the first one's has its name. -/
theorem backup_stands_in_for_another :
    let plain : Path := ⟨"photo"⟩
    let dotted : Path := ⟨"photo."⟩
    let tree : FileTree := { nodes := [(["photo"], .file [1]), (["photo."], .file [2])] }
    let after : FileTree := { nodes := [(["photo"], .file [1]), (["photo."], .file [2]),
      (["photo..bak"], .file [1])] }
    plain.backup = ⟨"photo..bak"⟩ ∧ dotted.backup = ⟨"photo..bak"⟩ ∧
      Image.backUp tree plain = (.ok (), after) ∧ Image.backUp after dotted = (.ok (), after) :=
  ⟨by decide, by decide, by rfl, by rfl⟩

end PhotoTags
