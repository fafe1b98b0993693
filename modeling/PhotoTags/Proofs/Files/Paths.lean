import PhotoTags.Proofs.Files.Writing
import PhotoTags.Proofs.Text.Fields

/-!
Where paths lead. Two paths that differ in their last part only lead to places beside each other, so
that the backup of a file stands beside it, under its name with `.bak` behind it, whichever way the
path is written. A path to a file does not end in a slash.
-/

namespace PhotoTags

namespace Path

def IsBlank (part : String) : Prop :=
  part = "" ∨ part = "."

def IsName (part : String) : Prop :=
  part ≠ "" ∧ part ≠ "." ∧ part ≠ ".."

/-- What comes first in a text backwards has no other parts than blank ones. -/
theorem fields_dropLastDots (backwards : List Char) :
    ∃ blanks, Text.fields '/' backwards.reverse =
        Text.fields '/' (dropLastDots backwards).reverse ++ blanks ∧
      ∀ part ∈ blanks, part = [] ∨ part = ['.'] := by
  induction backwards using dropLastDots.induct with
  | case1 rest ih =>
      obtain ⟨blanks, split, blank⟩ := ih
      refine ⟨blanks ++ [[]], ?_, ?_⟩
      · rw [List.reverse_cons, Text.fields_append_mark, split, dropLastDots, List.append_assoc]
        rfl
      · intro part member
        rcases List.mem_append.mp member with inside | last
        · exact blank part inside
        · exact .inl (List.mem_singleton.mp last)
  | case2 rest ih =>
      obtain ⟨blanks, split, blank⟩ := ih
      refine ⟨blanks ++ [['.']], ?_, ?_⟩
      · rw [List.reverse_cons, List.reverse_cons, List.append_assoc, List.singleton_append,
          Text.fields_append_mark, split, dropLastDots, List.append_assoc]
        rfl
      · intro part member
        rcases List.mem_append.mp member with inside | last
        · exact blank part inside
        · exact .inr (List.mem_singleton.mp last)
  | case3 text noSlash noDot =>
      refine ⟨[], ?_, by simp⟩
      rw [dropLastDots, List.append_nil]
      · exact noSlash
      · exact noDot

theorem fields_split (path : Path) : ∃ front blanks,
    (∀ name, '/' ∉ name → Text.fields '/' (path.split.1 ++ name) = front ++ [name]) ∧
    Text.fields '/' path.text.toList = front ++ path.split.2 :: blanks ∧
    ∀ part ∈ blanks, part = [] ∨ part = ['.'] := by
  obtain ⟨blanks, whole, blank⟩ := fields_dropLastDots path.text.toList.reverse
  rw [List.reverse_reverse] at whole
  have cut : (dropLastDots path.text.toList.reverse).reverse = path.split.1 ++ path.split.2 := by
    rw [split, ← List.reverse_append, List.takeWhile_append_dropWhile]
  have noSlash : '/' ∉ path.split.2 := by
    rw [split, List.mem_reverse]
    exact Text.not_mem_takeWhile '/' _
  have front : ∃ front, ∀ name, '/' ∉ name →
      Text.fields '/' (path.split.1 ++ name) = front ++ [name] := by
    rcases before : (dropLastDots path.text.toList.reverse).dropWhile (· != '/') with _ | ⟨c, rest⟩
    · refine ⟨[], fun name absent => ?_⟩
      simp [split, before, Text.fields_of_not_mem absent]
    · have stopped := List.head?_dropWhile_not (· != '/') (dropLastDots path.text.toList.reverse)
      rw [before] at stopped
      obtain rfl : c = '/' := by simpa using stopped
      refine ⟨Text.fields '/' rest.reverse, fun name absent => ?_⟩
      have directory : path.split.1 = rest.reverse ++ ['/'] := by simp [split, before]
      rw [directory, List.append_assoc, List.singleton_append, Text.fields_append_mark,
        Text.fields_of_not_mem absent]
  obtain ⟨front, named⟩ := front
  refine ⟨front, blanks, named, ?_, blank⟩
  rw [whole, cut, named _ noSlash, List.append_assoc, List.singleton_append]

theorem append_of_stemAndExtension {name stem extension : List Char}
    (split : stemAndExtension name = (stem, some extension)) : name = stem ++ '.' :: extension := by
  unfold stemAndExtension at split
  cases cut : Text.cutAt '.' name.reverse with
  | none => simp [cut] at split
  | some parts =>
      have whole := (Text.cutAt_eq_some_iff.mp cut).1
      simp only [cut] at split
      split at split
      · simp at split
      · obtain ⟨rfl, same⟩ := Prod.mk.inj split
        obtain rfl := Option.some.inj same
        simpa using congrArg List.reverse whole

def backupMark : List Char := ['.', 'b', 'a', 'k']

theorem isName_append_backupMark (name : List Char) :
    IsName (String.ofList (name ++ backupMark)) := by
  have long (other : String) (short : other.toList.length < 4) :
      String.ofList (name ++ backupMark) ≠ other := by
    rintro rfl
    rw [String.toList_ofList, List.length_append] at short
    exact absurd short (Nat.not_lt.mpr (Nat.le_add_left 4 name.length))
  exact ⟨long "" (by decide), long "." (by decide), long ".." (by decide)⟩

theorem ne_append_backupMark (name : List Char) :
    String.ofList name ≠ String.ofList (name ++ backupMark) := by
  intro same
  have longer := congrArg (·.toList.length) same
  simp [backupMark] at longer

theorem fileName?_eq_some {path : Path} {name : List Char} (named : path.fileName? = some name) :
    path.split.2 = name ∧ IsName (String.ofList name) := by
  simp only [fileName?] at named
  split at named
  · simp at named
  · rename_i special
    obtain rfl := Option.some.inj named
    refine ⟨rfl, fun empty => special (.inl ?_), fun dot => special (.inr (.inl ?_)),
      fun dots => special (.inr (.inr ?_))⟩
    · simpa using congrArg String.toList empty
    · simpa using congrArg String.toList dot
    · simpa using congrArg String.toList dots

theorem stem_of_no_extension {name : List Char} (bare : (stemAndExtension name).2 = none) :
    (stemAndExtension name).1 = name := by
  unfold stemAndExtension at bare ⊢
  split
  · rfl
  · split
    · rfl
    · rename_i cut nonempty
      simp [cut, nonempty] at bare

/-- What is put behind a file's name for its backup: the mark, and another dot before it if the name
has no extension. -/
def backupEnding (name : List Char) : List Char :=
  if (stemAndExtension name).2 = none then '.' :: backupMark else backupMark

def backupName (name : List Char) : List Char :=
  name ++ backupEnding name

theorem text_backup {path : Path} {name : List Char} (named : path.fileName? = some name) :
    path.backup.text.toList = path.split.1 ++ backupName name := by
  have ending : (stemAndExtension name).1 ++
      '.' :: ((stemAndExtension name).2.getD [] ++ backupMark) = backupName name := by
    rw [backupName, backupEnding]
    cases extended : (stemAndExtension name).2 with
    | none => simp [stem_of_no_extension extended]
    | some extension =>
        have whole := append_of_stemAndExtension (Prod.ext rfl extended)
        have assembled := congrArg (· ++ backupMark) whole
        simpa using assembled.symm
  rw [Path.backup, withExtension, extension?, named, ← ending]
  simp [backupMark]

theorem parts_backup_of_fileName? {path : Path} {name : List Char}
    (named : path.fileName? = some name) :
    ∃ front blanks, path.parts = front ++ String.ofList name :: blanks ∧
      path.backup.parts = front ++ [String.ofList (backupName name)] ∧
      ∀ part ∈ blanks, IsBlank part := by
  obtain ⟨last, -⟩ := fileName?_eq_some named
  obtain ⟨front, blanks, joined, whole, blank⟩ := path.fields_split
  rw [last] at whole
  have noSlash : '/' ∉ backupName name := by
    have inEnding : '/' ∉ backupEnding name := by
      unfold backupEnding
      split <;> decide
    have inName : '/' ∉ name := by
      rw [← last, split, List.mem_reverse]
      exact Text.not_mem_takeWhile '/' _
    rw [backupName, List.mem_append, not_or]
    exact ⟨inName, inEnding⟩
  refine ⟨front.map String.ofList, blanks.map String.ofList, ?_, ?_, ?_⟩
  · rw [parts, whole, List.map_append, List.map_cons]
  · rw [parts, text_backup named, joined _ noSlash, List.map_append, List.map_singleton]
  · intro part member
    obtain ⟨chars, inside, rfl⟩ := List.mem_map.mp member
    exact (blank chars inside).imp (fun same => by rw [same]) fun same => by rw [same]

theorem parts_backup {path : Path} (extended : path.extension? ≠ none) :
    ∃ front name blanks, path.fileName? = some name ∧
      path.parts = front ++ String.ofList name :: blanks ∧
      path.backup.parts = front ++ [String.ofList (name ++ backupMark)] ∧
      IsName (String.ofList name) ∧ ∀ part ∈ blanks, IsBlank part := by
  cases named : path.fileName? with
  | none => simp [extension?, named] at extended
  | some name =>
      have marked : backupName name = name ++ backupMark := by
        rw [backupName, backupEnding, if_neg (by simpa [extension?, named] using extended)]
      obtain ⟨front, blanks, own, other, blank⟩ := parts_backup_of_fileName? named
      rw [marked] at other
      exact ⟨front, name, blanks, rfl, own, other, (fileName?_eq_some named).2, blank⟩

theorem isAbsolute_iff_parts {path : Path} :
    path.isAbsolute = true ↔ ∃ rest, rest ≠ [] ∧ path.parts = "" :: rest := by
  rw [isAbsolute, parts]
  cases path.text.toList with
  | nil => simp [Text.fields]
  | cons c rest =>
      by_cases slash : c = '/'
      · simp [slash, Text.fields_cons_mark, Text.fields_ne_nil]
      · obtain ⟨first, others, split⟩ :=
          List.exists_cons_of_ne_nil (Text.fields_ne_nil '/' rest)
        simp [slash, Text.fields_cons_of_ne slash split]

theorem isAbsolute_backup (path : Path) : path.backup.isAbsolute = path.isAbsolute := by
  cases named : path.fileName? with
  | none => rw [backup, withExtension, named]
  | some name =>
      obtain ⟨front, blanks, own, other, -⟩ := parts_backup_of_fileName? named
      have first : String.ofList name ≠ "" := (fileName?_eq_some named).2.1
      rw [Bool.eq_iff_iff, isAbsolute_iff_parts, isAbsolute_iff_parts, own, other]
      cases front with
      | nil => simp [first]
      | cons part rest => simp

end Path

namespace FileTree

def Shares (tree : FileTree) (path other : Path) : Prop :=
  ∃ place, tree.locate path = .ok place ∧ tree.locate other = .ok place

theorem Shares.symm {tree : FileTree} {path other : Path} (shares : tree.Shares path other) :
    tree.Shares other path := by
  obtain ⟨place, found, otherFound⟩ := shares
  exact ⟨place, otherFound, found⟩

def IsRooted (tree : FileTree) (location : Location) : Prop :=
  ∀ front, front <+: location → tree.node? front = some .directory

theorem isRooted_nil (tree : FileTree) : tree.IsRooted [] := by
  intro front isFront
  rw [List.prefix_nil.mp isFront, node?_root]

theorem IsRooted.dropLast {tree : FileTree} {location : Location} (rooted : tree.IsRooted location) :
    tree.IsRooted location.dropLast :=
  fun front isFront => rooted front (isFront.trans (List.dropLast_prefix location))

theorem IsRooted.concat {tree : FileTree} {location : Location} (rooted : tree.IsRooted location)
    {name : String} (directory : tree.node? (location ++ [name]) = some .directory) :
    tree.IsRooted (location ++ [name]) := by
  intro front isFront
  rcases List.prefix_concat_iff.mp isFront with rfl | inside
  · exact directory
  · exact rooted front inside

theorem isRooted_follow {tree : FileTree} {base location : Location} {parts : List String}
    (rooted : tree.IsRooted base) (last : ∀ part, parts.getLast? = some part → ¬ Path.IsName part)
    (found : tree.follow base parts = .ok location) : tree.IsRooted location := by
  induction parts generalizing base with
  | nil => exact Except.ok.inj found ▸ rooted
  | cons part rest ih =>
      have later : ∀ other, rest.getLast? = some other → ¬ Path.IsName other := by
        intro other isLast
        exact last other (by simp [List.getLast?_cons, isLast])
      simp only [follow] at found
      split at found
      · exact ih rooted later found
      · rename_i notBlank
        split at found
        · exact ih rooted.dropLast later found
        · rename_i notParent
          split at found
          · rename_i alone
            subst alone
            rw [not_or] at notBlank
            exact absurd ⟨notBlank.1, notBlank.2, notParent⟩ (last part rfl)
          · split at found
            · simp at found
            · split at found
              · simp at found
              · simp at found
              · rename_i directory
                exact ih (rooted.concat directory) later found

theorem follow_of_locate {tree : FileTree} {path : Path} {location : Location}
    (found : tree.locate path = .ok location) :
    tree.follow [] (tree.start path ++ path.parts) = .ok location := by
  have parts := (locate_eq_ok_iff.mp found).1
  unfold locateParts at parts
  split at parts
  · simp at parts
  · split at parts
    · simp at parts
    · split at parts
      · simp at parts
      · exact parts

theorem start_backup (tree : FileTree) (path : Path) :
    tree.start path.backup = tree.start path := by
  rw [start, start, Path.isAbsolute_backup]

theorem follow_blanks (tree : FileTree) {parts : List String}
    (blank : ∀ part ∈ parts, Path.IsBlank part) (base : Location) :
    tree.follow base parts = .ok base := by
  induction parts with
  | nil => rfl
  | cons part rest ih =>
      have skipped : part = "" ∨ part = "." := blank part (List.mem_cons_self ..)
      rw [follow, if_pos skipped]
      exact ih fun other member => blank other (List.mem_cons_of_mem _ member)

/-- Parts with others behind them lead to a directory, from which the others lead on. -/
theorem follow_append (tree : FileTree) (base : Location) (front : List String)
    {rest : List String} (later : rest ≠ []) :
    tree.follow base (front ++ rest) =
      (tree.follow base (front ++ [""])).bind (tree.follow · rest) := by
  induction front generalizing base with
  | nil => rfl
  | cons part others ih =>
      have notLast : others ++ rest ≠ [] := fun empty => later (List.append_eq_nil_iff.mp empty).2
      have notAlone : others ++ [""] ≠ [] := by simp
      simp only [List.cons_append, follow, notLast, notAlone, if_false]
      split
      · exact ih base
      · split
        · exact ih base.dropLast
        · split
          · rfl
          · cases tree.node? (base ++ [part]) with
            | none => rfl
            | some node =>
                cases node with
                | file content => rfl
                | directory => exact ih (base ++ [part])

theorem follow_name (tree : FileTree) {name : String} (isName : Path.IsName name)
    (base : Location) : tree.follow base [name] = .ok (base ++ [name]) := by
  rw [follow, if_neg (not_or.mpr ⟨isName.1, isName.2.1⟩), if_neg isName.2.2]
  rfl

theorem eq_of_follow_name {tree : FileTree} {base place : Location} {name : String}
    {blanks : List String} (isName : Path.IsName name)
    (blank : ∀ part ∈ blanks, Path.IsBlank part)
    (found : tree.follow base (name :: blanks) = .ok place) : place = base ++ [name] := by
  cases blanks with
  | nil =>
      rw [follow_name tree isName] at found
      exact (Except.ok.inj found).symm
  | cons part rest =>
      rw [follow, if_neg (not_or.mpr ⟨isName.1, isName.2.1⟩), if_neg isName.2.2] at found
      simp only [List.cons_ne_nil, if_false] at found
      split at found
      · simp at found
      · split at found
        · simp at found
        · simp at found
        · rw [follow_blanks tree blank] at found
          exact (Except.ok.inj found).symm

/-- A path with a name in it leads to that name in the directory that the parts before it lead to. -/
theorem exists_directory {tree : FileTree} {path : Path} {front blanks : List String}
    {name : String} (own : path.parts = front ++ name :: blanks) (isName : Path.IsName name)
    (blank : ∀ part ∈ blanks, Path.IsBlank part) {place : Location}
    (found : tree.locate path = .ok place) :
    ∃ directory, tree.follow [] (tree.start path ++ front ++ [""]) = .ok directory ∧
      place = directory ++ [name] := by
  have led := follow_of_locate found
  rw [own, ← List.append_assoc, follow_append _ _ _ (List.cons_ne_nil _ _)] at led
  cases passed : tree.follow [] (tree.start path ++ front ++ [""]) with
  | error cause =>
      rw [passed] at led
      simp [Except.bind] at led
  | ok directory =>
      rw [passed] at led
      exact ⟨directory, rfl, eq_of_follow_name isName blank led⟩

theorem exists_named {tree : FileTree} {path : Path} (extended : path.extension? ≠ none)
    {place : Location} (found : tree.locate path = .ok place) :
    ∃ directory name, path.fileName? = some name ∧ place = directory ++ [String.ofList name] := by
  obtain ⟨front, name, blanks, named, own, -, isName, blank⟩ := Path.parts_backup extended
  obtain ⟨directory, -, led⟩ := exists_directory own isName blank found
  exact ⟨directory, name, named, led⟩

theorem exists_beside {tree : FileTree} {path : Path} (extended : path.extension? ≠ none)
    {place spot : Location} (found : tree.locate path = .ok place)
    (beside : tree.locate path.backup = .ok spot) :
    ∃ directory name, place = directory ++ [String.ofList name] ∧
      spot = directory ++ [String.ofList (name ++ Path.backupMark)] := by
  obtain ⟨front, name, blanks, -, own, other, isName, blank⟩ := Path.parts_backup extended
  obtain ⟨directory, passed, led⟩ := exists_directory own isName blank found
  obtain ⟨again, passedAgain, ledBeside⟩ :=
    exists_directory other (Path.isName_append_backupMark name) (by simp) beside
  rw [start_backup] at passedAgain
  obtain rfl := Except.ok.inj (passed.symm.trans passedAgain)
  exact ⟨directory, name, led, ledBeside⟩

theorem eq_iff_beside {tree : FileTree} {path other : Path} (extended : path.extension? ≠ none)
    (otherExtended : other.extension? ≠ none) {place otherPlace spot otherSpot : Location}
    (found : tree.locate path = .ok place) (beside : tree.locate path.backup = .ok spot)
    (otherFound : tree.locate other = .ok otherPlace)
    (otherBeside : tree.locate other.backup = .ok otherSpot) :
    place = otherPlace ↔ spot = otherSpot := by
  obtain ⟨directory, name, rfl, rfl⟩ := exists_beside extended found beside
  obtain ⟨otherDirectory, otherName, rfl, rfl⟩ := exists_beside otherExtended otherFound otherBeside
  simp

end FileTree

end PhotoTags
