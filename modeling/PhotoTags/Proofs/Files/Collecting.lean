import Mathlib.Data.Finset.Card
import Mathlib.Data.List.Forall2
import Mathlib.Data.Multiset.Bind
import PhotoTags.Files.Collect
import PhotoTags.Proofs.Files.Joining

/-!
Which images a list of paths names. A file counts by its own name, which has to end in the extension
of an image. A path names itself or all such files below it, each once and by its own path; only a
file whose path gets too long is left out, since that path leads nowhere.
-/

namespace PhotoTags

def InAnyCase (word text : List Char) : Prop :=
  List.Forall₂ (fun letter c => c = letter ∨ c = letter.toUpper) word text

def IsImageName (name : List Char) : Prop :=
  ∃ stem extension, stem ≠ [] ∧ name = stem ++ '.' :: extension ∧
    (InAnyCase "jpg".toList extension ∨ InAnyCase "jpeg".toList extension)

theorem toNat_toLower (c : Char) : c.toLower.val.toNat =
    if 65 ≤ c.val.toNat ∧ c.val.toNat ≤ 90 then c.val.toNat + 32 else c.val.toNat := by
  have capital : (c.val ≥ 'A'.val ∧ c.val ≤ 'Z'.val) ↔ 65 ≤ c.val.toNat ∧ c.val.toNat ≤ 90 := by
    simp [UInt32.le_iff_toNat_le]
  have shift : ('a'.val - 'A'.val).toNat = 32 := rfl
  unfold Char.toLower
  split
  · rename_i inside
    have bounds := capital.mp inside
    rw [if_pos bounds]
    simp only [UInt32.toNat_add, shift]
    omega
  · rename_i outside
    rw [if_neg fun inside => outside (capital.mpr inside)]

theorem toLower_eq_iff {letter : Char} (small : letter.isLower = true) (c : Char) :
    c.toLower = letter ↔ c = letter ∨ c = letter.toUpper := by
  have bounds : 97 ≤ letter.val.toNat ∧ letter.val.toNat ≤ 122 := by
    have between : (letter.val ≥ 'a'.val && letter.val ≤ 'z'.val) = true := small
    simpa [UInt32.le_iff_toNat_le] using between
  have shift : ('A'.val - 'a'.val).toNat = 2 ^ 32 - 32 := rfl
  have upper : letter.toUpper.val.toNat = letter.val.toNat - 32 := by
    have inside : letter.val ≥ 'a'.val ∧ letter.val ≤ 'z'.val := by
      simpa [UInt32.le_iff_toNat_le] using bounds
    unfold Char.toUpper
    rw [dif_pos inside]
    simp only [UInt32.toNat_add, shift]
    omega
  simp only [Char.ext_iff, ← UInt32.toNat_inj, toNat_toLower, upper]
  split <;> omega

theorem asciiLower_eq_iff {word : List Char} (small : word.all Char.isLower = true)
    (text : List Char) : Text.asciiLower text = word ↔ InAnyCase word text := by
  induction word generalizing text with
  | nil => simp [Text.asciiLower, InAnyCase]
  | cons letter word ih =>
      obtain ⟨first, later⟩ := Bool.and_eq_true_iff.mp small
      cases text with
      | nil => simp [Text.asciiLower, InAnyCase]
      | cons c rest =>
          have behind := ih later rest
          rw [Text.asciiLower, InAnyCase] at behind
          rw [Text.asciiLower, InAnyCase, List.map_cons, List.cons.injEq, toLower_eq_iff first,
            behind, List.forall₂_cons]

namespace Path

theorem stemAndExtension_eq_some_iff {name extension : List Char} :
    (stemAndExtension name).2 = some extension ↔
      ∃ stem, stem ≠ [] ∧ name = stem ++ '.' :: extension ∧ '.' ∉ extension := by
  constructor
  · intro split
    unfold stemAndExtension at split
    cases cut : Text.cutAt '.' name.reverse with
    | none => simp [cut] at split
    | some parts =>
        obtain ⟨whole, noDot⟩ := Text.cutAt_eq_some_iff.mp cut
        simp only [cut] at split
        split at split
        · simp at split
        · rename_i nonempty
          obtain rfl := Option.some.inj split
          exact ⟨parts.2.reverse, by simpa using nonempty,
            by simpa using congrArg List.reverse whole, by simpa using noDot⟩
  · rintro ⟨stem, nonempty, rfl, noDot⟩
    have cut : Text.cutAt '.' (stem ++ '.' :: extension).reverse =
        some (extension.reverse, stem.reverse) :=
      Text.cutAt_eq_some_iff.mpr ⟨by simp, by simpa using noDot⟩
    rw [stemAndExtension, cut]
    simp [nonempty]

theorem isImage_iff {path : Path} {name : List Char} (named : path.fileName? = some name) :
    path.isImage = true ↔ IsImageName name := by
  have letters (extension : List Char) :
      (Text.asciiLower extension = "jpg".toList ∨ Text.asciiLower extension = "jpeg".toList) ↔
        InAnyCase "jpg".toList extension ∨ InAnyCase "jpeg".toList extension := by
    rw [asciiLower_eq_iff (by decide), asciiLower_eq_iff (by decide)]
  have noDot {extension : List Char}
      (either : InAnyCase "jpg".toList extension ∨ InAnyCase "jpeg".toList extension) :
      '.' ∉ extension := by
    intro dot
    have lowered : '.' ∈ Text.asciiLower extension := List.mem_map.mpr ⟨'.', dot, rfl⟩
    rcases (letters extension).mpr either with short | long
    · exact absurd (short ▸ lowered) (by decide)
    · exact absurd (long ▸ lowered) (by decide)
  rw [isImage, extension?, named, Option.bind_some]
  constructor
  · intro ends
    cases extended : (stemAndExtension name).2 with
    | none => simp [extended] at ends
    | some extension =>
        obtain ⟨stem, nonempty, whole, -⟩ := stemAndExtension_eq_some_iff.mp extended
        simp only [extended, Bool.or_eq_true, beq_iff_eq] at ends
        exact ⟨stem, extension, nonempty, whole, (letters extension).mp ends⟩
  · rintro ⟨stem, extension, nonempty, whole, either⟩
    have extended := stemAndExtension_eq_some_iff.mpr ⟨stem, nonempty, whole, noDot either⟩
    simpa [extended] using (letters extension).mpr either

def onward (path : Path) (rest : Location) : Path :=
  if rest = [] then path else path.join rest

end Path

namespace FileTree

/-- What is left of the way to an image that the path names: nothing if the path is that of an image,
and the way on from a directory if the image is below it. -/
inductive HasImage (tree : FileTree) (path : Path) : Location → Prop
  | itself {directory : Location} {name : String} {content : Bytes} :
      tree.locate path = .ok (directory ++ [name]) →
      tree.node? (directory ++ [name]) = some (.file content) →
      IsImageName name.toList → HasImage tree path []
  | below {base rest : Location} {name : String} {content : Bytes} :
      tree.locate path = .ok base → tree.node? base = some .directory →
      tree.node? (base ++ (rest ++ [name])) = some (.file content) →
      IsImageName name.toList →
      Text.byteLength (path.join (rest ++ [name])).text.toList ≤ maxPathLength →
      HasImage tree path (rest ++ [name])

theorem below?_eq_some_iff {base location rest : Location} :
    below? base location = some rest ↔ location = base ++ rest := by
  induction base generalizing location with
  | nil => simp [below?, eq_comm]
  | cons name base ih =>
      cases location with
      | nil => simp [below?]
      | cons other location =>
          simp only [below?]
          split
          · rename_i same
            rw [ih, same, List.cons_append, List.cons_inj_right]
          · rename_i differ
            simp [Ne.symm differ]

def restsBelow (tree : FileTree) (base : Location) : List Location :=
  tree.nodes.filterMap fun node =>
    match node.2 with
    | .file _ => below? base node.1
    | .directory => none

theorem filesBelow_eq (tree : FileTree) (path : Path) (base : Location) :
    tree.filesBelow path base = (tree.restsBelow base).map path.join := by
  rw [filesBelow, restsBelow, List.map_filterMap]
  congr 1
  funext ⟨location, node⟩
  cases node with
  | directory => rfl
  | file content => cases below? base location <;> rfl

theorem mem_restsBelow_iff {tree : FileTree} {base rest : Location} :
    rest ∈ tree.restsBelow base ↔ ∃ content, (base ++ rest, .file content) ∈ tree.nodes := by
  rw [restsBelow, List.mem_filterMap]
  constructor
  · rintro ⟨⟨location, node⟩, member, left⟩
    cases node with
    | directory => simp at left
    | file content =>
        obtain rfl := below?_eq_some_iff.mp left
        exact ⟨content, member⟩
  · rintro ⟨content, member⟩
    exact ⟨_, member, below?_eq_some_iff.mpr rfl⟩

theorem WellFormed.nodup_restsBelow {tree : FileTree} (wellFormed : tree.WellFormed)
    (base : Location) : (tree.restsBelow base).Nodup := by
  refine List.Pairwise.filterMap _ ?_ wellFormed.ordered
  rintro ⟨location, node⟩ ⟨other, otherNode⟩ before rest left otherRest otherLeft same
  cases node with
  | directory => simp at left
  | file content =>
      cases otherNode with
      | directory => simp at otherLeft
      | file otherContent =>
          obtain rfl := below?_eq_some_iff.mp left
          obtain rfl := below?_eq_some_iff.mp otherLeft
          exact before.ne (congrArg (base ++ ·) same)

def imageRests (tree : FileTree) (path : Path) : List Location :=
  match tree.locate path with
  | .error _ => []
  | .ok base =>
      match tree.node? base with
      | some (.file _) => if path.isImage then [[]] else []
      | some .directory => (tree.restsBelow base).filter fun rest =>
          tree.isFile (path.join rest) && (path.join rest).isImage
      | none => []

theorem isImage_iff_of_file {tree : FileTree} {path : Path} {directory : Location} {name : String}
    {content : Bytes} (found : tree.locate path = .ok (directory ++ [name]))
    (file : tree.node? (directory ++ [name]) = some (.file content)) :
    path.isImage = true ↔ IsImageName name.toList := by
  obtain ⟨other, own, named, split⟩ := fileName?_of_file found file
  have same := List.singleton_inj.mp (List.append_inj' split rfl).2
  rw [Path.isImage_iff named, same, String.toList_ofList]

theorem isFile_iff {tree : FileTree} {path : Path} :
    tree.isFile path = true ↔ ∃ location content, tree.locate path = .ok location ∧
      tree.node? location = some (.file content) := by
  unfold isFile nodeAt?
  cases tree.locate path with
  | error cause => simp
  | ok location =>
      cases held : tree.node? location with
      | none => simp [held]
      | some node => cases node <;> simp [held]

section

variable {tree : FileTree} (wellFormed : tree.WellFormed)

include wellFormed

theorem ne_nil_of_mem_restsBelow {base rest : Location}
    (directory : tree.node? base = some .directory) (member : rest ∈ tree.restsBelow base) :
    rest ≠ [] := by
  rintro rfl
  obtain ⟨content, listed⟩ := mem_restsBelow_iff.mp member
  rw [List.append_nil] at listed
  have below : base ≠ [] := by
    rintro rfl
    obtain ⟨above, name, own, -⟩ := wellFormed.held _ listed
    simp at own
  have file := (wellFormed.mem_nodes_iff below).mp listed
  simp [directory] at file

theorem imagesAt_eq (path : Path) :
    tree.imagesAt path = (tree.imageRests path).map path.onward := by
  unfold imagesAt imageRests
  cases tree.locate path with
  | error cause => rfl
  | ok base =>
      cases held : tree.node? base with
      | none => simp [held]
      | some node =>
          cases node with
          | file content =>
              simp only [held]
              split <;> simp [Path.onward]
          | directory =>
              simp only [held, filesBelow_eq, List.filter_map]
              refine List.map_congr_left fun rest member => ?_
              have further :=
                ne_nil_of_mem_restsBelow wellFormed held (List.mem_filter.mp member).1
              rw [Path.onward, if_neg further]

theorem nodup_imageRests (path : Path) : (tree.imageRests path).Nodup := by
  unfold imageRests
  split
  · exact List.nodup_nil
  · split
    · split
      · exact List.nodup_singleton _
      · exact List.nodup_nil
    · exact (wellFormed.nodup_restsBelow _).filter _
    · exact List.nodup_nil

/-- A file below a directory is an image at the directory's path if its own name says so and its
path does not get too long. -/
theorem isFile_join_iff {path : Path} {base rest : Location} {content : Bytes}
    (led : tree.locate path = .ok base) (further : rest ≠ [])
    (file : tree.node? (base ++ rest) = some (.file content)) :
    tree.isFile (path.join rest) = true ↔
      Text.byteLength (path.join rest).text.toList ≤ maxPathLength := by
  have leads := locate_join_iff wellFormed led further file
  rw [isFile_iff, ← leads]
  constructor
  · rintro ⟨location, other, found, -⟩
    have followed := (locate_eq_ok_iff_follow.mp found).2.1
    rw [start_join led, follow_join wellFormed led further file] at followed
    rw [found, Except.ok.inj followed]
  · exact fun found => ⟨_, content, found, file⟩

theorem mem_imageRests_iff {path : Path} {rest : Location} :
    rest ∈ tree.imageRests path ↔ tree.HasImage path rest := by
  constructor
  · intro member
    unfold imageRests at member
    split at member
    · simp at member
    · rename_i base led
      split at member
      · rename_i content file
        split at member
        · rename_i isImage
          obtain rfl := List.mem_singleton.mp member
          obtain ⟨directory, name, -, rfl⟩ := fileName?_of_file led file
          exact .itself led file ((isImage_iff_of_file led file).mp isImage)
        · simp at member
      · rename_i directory
        obtain ⟨below, checked⟩ := List.mem_filter.mp member
        obtain ⟨isFile, isImage⟩ := (Bool.and_eq_true _ _).mp checked
        have further := ne_nil_of_mem_restsBelow wellFormed directory below
        obtain ⟨content, listed⟩ := mem_restsBelow_iff.mp below
        have file := (wellFormed.mem_nodes_iff (by simp [further])).mp listed
        have short := (isFile_join_iff wellFormed led further file).mp isFile
        have found := (locate_join_iff wellFormed led further file).mpr short
        rcases List.eq_nil_or_concat rest with none | ⟨others, name, split⟩
        · exact absurd none further
        · rw [List.concat_eq_append] at split
          subst rest
          rw [← List.append_assoc] at found file
          have named := (isImage_iff_of_file found file).mp isImage
          rw [List.append_assoc] at file
          exact .below led directory file named short
      · simp at member
  · intro has
    unfold imageRests
    cases has with
    | itself led file named =>
        simp only [led, file, (isImage_iff_of_file led file).mpr named, if_true,
          List.mem_singleton]
    | @below base others name content led directory file named short =>
        have further : others ++ [name] ≠ [] := by simp
        have isFile := (isFile_join_iff wellFormed led further file).mpr short
        have found := (locate_join_iff wellFormed led further file).mpr short
        have listed := (wellFormed.mem_nodes_iff (by simp)).mpr file
        rw [← List.append_assoc] at found file
        have isImage := (isImage_iff_of_file found file).mpr named
        simp only [led, directory]
        refine List.mem_filter.mpr ⟨mem_restsBelow_iff.mpr ⟨content, listed⟩, ?_⟩
        rw [isFile, isImage, Bool.and_self]

theorem injOn_onward (path : Path) : Set.InjOn path.onward {rest | tree.HasImage path rest} := by
  intro rest has other otherHas same
  have entries {base names : Location} {content : Bytes}
      (file : tree.node? (base ++ names) = some (.file content)) :
      ∀ name ∈ names, '/' ∉ name.toList := fun name member =>
    (wellFormed.isEntry_of_node? file name (List.mem_append_right _ member)).noSlash
  cases has with
  | itself led file named =>
      cases otherHas with
      | itself => rfl
      | below otherLed directory =>
          obtain rfl := Except.ok.inj (led.symm.trans otherLed)
          simp [file] at directory
  | below led directory file =>
      cases otherHas with
      | itself otherLed otherFile =>
          obtain rfl := Except.ok.inj (led.symm.trans otherLed)
          simp [otherFile] at directory
      | below otherLed otherDirectory otherFile =>
          have given := (locate_eq_ok_iff_follow.mp led).1.2.2
          simp only [Path.onward, List.append_eq_nil_iff, List.cons_ne_nil, and_false,
            if_false] at same
          exact Path.join_injective given (by simp) (by simp) (entries file) (entries otherFile) same

theorem isFile_onward {path : Path} {rest : Location} (has : tree.HasImage path rest) :
    tree.isFile (path.onward rest) = true := by
  cases has with
  | itself led file => exact isFile_iff.mpr ⟨_, _, led, file⟩
  | below led directory file named short =>
      rw [Path.onward, if_neg (by simp)]
      exact (isFile_join_iff wellFormed led (by simp) file).mpr short

end

end FileTree

/-- What a list of paths names is, path by path and with all repetitions, the images at each: the path
itself if it is that of an image, and from a directory on each image below it, once and by a path of
its own that leads to it. -/
theorem images_collected {tree : FileTree} (wellFormed : tree.WellFormed) (paths : List Path) :
    ∃ found : Path → Finset Location,
      (∀ path rest, rest ∈ found path ↔ tree.HasImage path rest) ∧
      (tree.images paths : Multiset Path) =
        (paths : Multiset Path).bind (fun path => (found path).val.map path.onward) ∧
      (∀ path, Set.InjOn path.onward (found path)) ∧
      ∀ image ∈ tree.images paths, tree.isFile image = true := by
  have members (path : Path) (rest : Location) :
      rest ∈ tree.imageRests path ↔ tree.HasImage path rest :=
    FileTree.mem_imageRests_iff wellFormed
  refine ⟨fun path => ⟨tree.imageRests path, FileTree.nodup_imageRests wellFormed path⟩,
    members, ?_, ?_, ?_⟩
  · rw [FileTree.images, ← Multiset.coe_bind]
    congr 1
    funext path
    rw [FileTree.imagesAt_eq wellFormed, Multiset.map_coe]
  · intro path
    exact (FileTree.injOn_onward wellFormed path).mono fun rest => (members path rest).mp
  · intro image member
    obtain ⟨path, -, listed⟩ := List.mem_flatMap.mp member
    rw [FileTree.imagesAt_eq wellFormed] at listed
    obtain ⟨rest, inside, rfl⟩ := List.mem_map.mp listed
    exact FileTree.isFile_onward wellFormed ((members path rest).mp inside)

theorem images_collected_overlapping :
    let tree : FileTree := { nodes := [([".jpg"], .file []), (["a.JPG"], .file []),
      (["b.jpg"], .directory), (["b.jpg", "c.d.jpeg"], .file []), (["b.jpg", "notes.txt"], .file [])] }
    let paths : List Path := [⟨"."⟩, ⟨"b.jpg/"⟩, ⟨"./a.JPG"⟩, ⟨"none"⟩, ⟨".jpg"⟩]
    tree.WellFormed ∧
      tree.images paths = [⟨"./a.JPG"⟩, ⟨"./b.jpg/c.d.jpeg"⟩, ⟨"b.jpg/c.d.jpeg"⟩, ⟨"./a.JPG"⟩] ∧
      ∃ found : Path → Finset Location,
        (∀ path rest, rest ∈ found path ↔ tree.HasImage path rest) ∧
        (tree.images paths : Multiset Path) =
          (paths : Multiset Path).bind (fun path => (found path).val.map path.onward) ∧
        (∀ path, Set.InjOn path.onward (found path)) ∧
        ∀ image ∈ tree.images paths, tree.isFile image = true := by
  intro tree paths
  have wellFormed : tree.WellFormed := by
    refine ⟨by decide, ?_⟩
    simp only [tree, List.forall_mem_cons, List.not_mem_nil, false_implies, implies_true, and_true]
    exact ⟨⟨[], _, rfl, by decide, rfl⟩, ⟨[], _, rfl, by decide, rfl⟩,
      ⟨[], _, rfl, by decide, rfl⟩, ⟨["b.jpg"], _, rfl, by decide, by decide⟩,
      ⟨["b.jpg"], _, rfl, by decide, by decide⟩⟩
  exact ⟨wellFormed, by decide +kernel, images_collected wellFormed paths⟩

namespace Path

def here (slashes : Nat) : Path :=
  ⟨String.ofList ('.' :: List.replicate slashes '/')⟩

theorem byteLength_here (slashes : Nat) :
    Text.byteLength (here slashes).text.toList = slashes + 1 := by
  have each : Text.byteLength (List.replicate slashes '/') = slashes := by
    induction slashes with
    | zero => rfl
    | succ slashes ih =>
        rw [List.replicate_succ, Text.byteLength_cons, ih, Nat.add_comm]
        rfl
  rw [here, String.toList_ofList, Text.byteLength_cons, each, Nat.add_comm]
  rfl

theorem isBlank_of_mem_parts_here {slashes : Nat} :
    ∀ part ∈ (here (slashes + 1)).parts, IsBlank part := by
  intro part member
  rw [parts, here, String.toList_ofList, List.replicate_succ, ← List.singleton_append,
    Text.fields_append_mark] at member
  obtain ⟨chars, inside, rfl⟩ := List.mem_map.mp member
  rcases List.mem_append.mp inside with first | later
  · rw [List.mem_singleton.mp first]
    exact .inr rfl
  · have empty : chars = [] := List.eq_nil_iff_forall_not_mem.mpr fun c within => by
      obtain ⟨slash, other⟩ := Text.mem_of_mem_fields later c within
      exact other (List.eq_of_mem_replicate slash)
    exact .inl (by rw [empty])

theorem byteLength_join_here (slashes : Nat) (name : String) :
    Text.byteLength ((here (slashes + 1)).join [name]).text.toList =
      slashes + 2 + Text.byteLength name.toList := by
  have given : (here (slashes + 1)).text ≠ "" := by simp [here]
  have ends : FileTree.endsInSlash (here (slashes + 1)) = true := by
    simp [FileTree.endsInSlash, here, List.getLast?_cons, List.getLast?_replicate]
  rw [text_join given, if_pos ends, Text.byteLength_append, byteLength_here]
  rfl

end Path

theorem FileTree.locate_here {tree : FileTree} (atRoot : tree.working = []) {slashes : Nat}
    (short : slashes + 2 ≤ maxPathLength) : tree.locate (Path.here (slashes + 1)) = .ok [] := by
  refine locate_eq_ok_iff_follow.mpr ⟨⟨?_, ?_, ?_⟩, ?_, by simp⟩
  · simp [Path.here]
  · rw [Path.byteLength_here]
    exact short
  · simp [Path.here]
  · have first : tree.start (Path.here (slashes + 1)) = [] := by
      simp [start, Path.isAbsolute, Path.here, atRoot]
    rw [first]
    exact tree.follow_blanks Path.isBlank_of_mem_parts_here []

/-- The path of the working directory can be so long that no path leads on from it to the files
there, which are then not found. -/
theorem images_below_long_path :
    let tree : FileTree := { nodes := [(["a.jpg"], .file [])] }
    let path : Path := .here 4091
    tree.WellFormed ∧ tree.locate path = .ok [] ∧ tree.node? [] = some .directory ∧
      tree.node? (["a.jpg"]) = some (.file []) ∧ IsImageName "a.jpg".toList ∧
      FileTree.maxPathLength < Text.byteLength (path.join ["a.jpg"]).text.toList ∧
      tree.images [path] = [] := by
  intro tree path
  have written : FileTree.empty.write ⟨"a.jpg"⟩ [] = .ok tree := by rfl
  have wellFormed : tree.WellFormed := FileTree.wellFormed_empty.write written
  have led : tree.locate path = .ok [] := FileTree.locate_here rfl (by decide)
  have long : FileTree.maxPathLength < Text.byteLength (path.join ["a.jpg"]).text.toList := by
    rw [Path.byteLength_join_here]
    decide
  refine ⟨wellFormed, led, rfl, by decide, ⟨['a'], ['j', 'p', 'g'], by decide, rfl, .inl ?_⟩, long, ?_⟩
  · exact (asciiLower_eq_iff (by decide) _).mp (by decide)
  · refine List.flatMap_eq_nil_iff.mpr fun other member => ?_
    obtain rfl := List.mem_singleton.mp member
    rw [FileTree.imagesAt_eq wellFormed, List.map_eq_nil_iff]
    refine List.eq_nil_iff_forall_not_mem.mpr fun rest listed => ?_
    cases (FileTree.mem_imageRests_iff wellFormed).mp listed with
    | itself there =>
        have root := Except.ok.inj (led.symm.trans there)
        simp at root
    | below there directory file named short =>
        obtain rfl := Except.ok.inj (led.symm.trans there)
        have only := (wellFormed.mem_nodes_iff (by simp)).mpr file
        simp only [tree, List.mem_singleton, List.nil_append, Prod.mk.injEq] at only
        rw [only.1] at short
        exact absurd short (Nat.not_le.mpr long)

end PhotoTags
