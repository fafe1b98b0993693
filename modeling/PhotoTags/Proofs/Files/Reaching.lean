import PhotoTags.Files.Collect
import PhotoTags.Image.Save
import PhotoTags.Proofs.Files.Paths

/-!
What a change to an image can reach: the place of the image, and that of its backup if backups are
wanted. Two collected images that are not one file reach no place in common, since no image has the
name of a backup. What is read of an image and where its backup goes is told by these places alone.
-/

namespace PhotoTags

namespace Path

theorem extension?_of_isImage {path : Path} (isImage : path.isImage = true) :
    ∃ extension, path.extension? = some extension ∧
      (extension.map Char.toLower).getLast? = some 'g' := by
  unfold Path.isImage at isImage
  cases extended : path.extension? with
  | none => simp [extended] at isImage
  | some extension =>
      simp only [extended, Bool.or_eq_true, beq_iff_eq, Text.asciiLower] at isImage
      refine ⟨extension, rfl, ?_⟩
      rcases isImage with short | long
      · rw [short]
        rfl
      · rw [long]
        rfl

theorem fileName?_ne_of_isImage {path : Path} (isImage : path.isImage = true) (name : List Char) :
    path.fileName? ≠ some (name ++ backupMark) := by
  intro named
  obtain ⟨extension, extended, ends⟩ := extension?_of_isImage isImage
  simp only [extension?, named, Option.bind_some] at extended
  have whole := append_of_stemAndExtension (Prod.ext rfl extended)
  have last := congrArg (fun text => (text.map Char.toLower).getLast?) whole
  simp [backupMark, List.getLast?_cons, ends] at last

end Path

namespace FileTree

/-- A change to the image at the path, if that leads anywhere, may write to the location. -/
def Reaches (backups : Bool) (tree : FileTree) (path : Path) (location : Location) : Prop :=
  ∃ place, tree.locate path = .ok place ∧
    (location = place ∨ backups = true ∧ tree.locate path.backup = .ok location)

structure Touched (spots : Location → Prop) (before after : FileTree) : Prop where
  barriers : after.barriers = before.barriers
  leads : ∀ path location, after.locate path = .ok location ↔ before.locate path = .ok location
  elsewhere : ∀ location, after.node? location = before.node? location ∨
    spots location ∧ before.node? location ≠ some .directory ∧
      ∃ content, after.node? location = some (.file content)

structure Alike (backups : Bool) (path : Path) (left right : FileTree) : Prop where
  barriers : left.barriers = right.barriers
  leads : ∀ other location, left.locate other = .ok location ↔ right.locate other = .ok location
  same : ∀ location, left.Reaches backups path location →
    left.node? location = right.node? location

namespace Touched

variable {spots : Location → Prop} {before middle after : FileTree}

theorem refl (spots : Location → Prop) (tree : FileTree) : Touched spots tree tree :=
  ⟨rfl, fun _ _ => Iff.rfl, fun _ => .inl rfl⟩

theorem trans (first : Touched spots before middle) (second : Touched spots middle after) :
    Touched spots before after := by
  refine ⟨second.barriers.trans first.barriers,
    fun path location => (second.leads path location).trans (first.leads path location),
    fun location => ?_⟩
  rcases second.elsewhere location with same | ⟨spot, free, written⟩
  · rw [same]
    exact first.elsewhere location
  · rcases first.elsewhere location with same | ⟨-, vacant, -⟩
    · exact .inr ⟨spot, same ▸ free, written⟩
    · exact .inr ⟨spot, vacant, written⟩

theorem mono {wider : Location → Prop} (touched : Touched spots before after)
    (within : ∀ location, spots location → wider location) : Touched wider before after :=
  ⟨touched.barriers, touched.leads,
    fun location => (touched.elsewhere location).imp_right (.imp_left (within _))⟩

theorem of_put {place : Location} (free : before.node? place ≠ some .directory) (content : Bytes)
    (within : spots place) : Touched spots before (before.put place (.file content)) := by
  refine ⟨rfl, locate_put_iff free content, fun location => ?_⟩
  rw [node?_put_file free]
  split
  · rename_i same
    subst same
    exact .inr ⟨within, free, content, rfl⟩
  · exact .inl rfl

theorem of_write {path : Path} {content : Bytes} (written : before.write path content = .ok after)
    (within : ∀ location, before.locate path = .ok location → spots location) :
    Touched spots before after := by
  obtain ⟨place, found, -, rfl⟩ := write_eq_ok_iff.mp written
  obtain ⟨⟨-, located⟩, free, -⟩ := writable_eq_ok_iff.mp found
  exact of_put free content (within place located)

theorem of_copy (source destination : Path)
    (within : ∀ location, before.locate destination = .ok location → spots location) :
    Touched spots before (before.copy source destination).2 := by
  rcases copy_cases before source destination with ⟨cause, failed⟩ | ⟨content, place, -, found, copied⟩
  · rw [failed]
    exact refl spots before
  · obtain ⟨⟨-, located⟩, free, -⟩ := writable_eq_ok_iff.mp found
    rw [copied]
    exact of_put free _ (within place located)

theorem node?_of_not_spot (touched : Touched spots before after) {location : Location}
    (spared : ¬ spots location) : after.node? location = before.node? location :=
  (touched.elsewhere location).resolve_right fun changed => spared changed.1

end Touched

section

variable {backups : Bool} {path : Path} {tree : FileTree}

theorem reaches_of_locate {place : Location} (found : tree.locate path = .ok place) :
    tree.Reaches backups path place :=
  ⟨place, found, .inl rfl⟩

theorem reaches_of_locate_backup {place : Location} (found : tree.locate path = .ok place)
    (wanted : backups = true) (location : Location)
    (beside : tree.locate path.backup = .ok location) : tree.Reaches backups path location :=
  ⟨place, found, .inr ⟨wanted, beside⟩⟩

theorem reaches_iff_of_leads {other : FileTree}
    (leads : ∀ path location, other.locate path = .ok location ↔ tree.locate path = .ok location)
    (location : Location) :
    other.Reaches backups path location ↔ tree.Reaches backups path location := by
  simp only [Reaches, leads]

theorem shares_of_reaches {other : Path} {location : Location} (isImage : path.isImage = true)
    (otherIsImage : other.isImage = true) (reached : tree.Reaches backups path location)
    (otherReached : tree.Reaches backups other location) : tree.Shares path other := by
  have extended {path : Path} (isImage : path.isImage = true) : path.extension? ≠ none := by
    obtain ⟨extension, extended, -⟩ := Path.extension?_of_isImage isImage
    simp [extended]
  have apart {path other : Path} {place location : Location} (isImage : path.isImage = true)
      (otherIsImage : other.isImage = true) (found : tree.locate path = .ok place)
      (beside : tree.locate path.backup = .ok location) :
      tree.locate other ≠ .ok location := by
    intro otherFound
    obtain ⟨directory, name, -, marked⟩ := exists_beside (extended isImage) found beside
    obtain ⟨otherDirectory, otherName, named, own⟩ := exists_named (extended otherIsImage) otherFound
    have same := (List.append_inj' (own.symm.trans marked) rfl).2
    obtain rfl := String.ofList_injective (List.singleton_inj.mp same)
    exact Path.fileName?_ne_of_isImage otherIsImage name named
  obtain ⟨place, found, rfl | ⟨-, beside⟩⟩ := reached
  · obtain ⟨otherPlace, otherFound, rfl | ⟨-, otherBeside⟩⟩ := otherReached
    · exact ⟨_, found, otherFound⟩
    · exact absurd found (apart otherIsImage isImage otherFound otherBeside)
  · obtain ⟨otherPlace, otherFound, rfl | ⟨-, otherBeside⟩⟩ := otherReached
    · exact absurd otherFound (apart isImage otherIsImage found beside)
    · have one := (eq_iff_beside (extended isImage) (extended otherIsImage) found beside otherFound
        otherBeside).mpr rfl
      exact ⟨place, found, one ▸ otherFound⟩

end

theorem isImage_of_mem_imagesAt {tree : FileTree} {path image : Path}
    (member : image ∈ tree.imagesAt path) : image.isImage = true := by
  unfold imagesAt at member
  split at member
  · simp at member
  · split at member
    · split at member
      · rename_i named
        exact List.mem_singleton.mp member ▸ named
      · simp at member
    · exact ((Bool.and_eq_true _ _).mp (List.mem_filter.mp member).2).2
    · simp at member

theorem isImage_of_mem_images {tree : FileTree} {paths : List Path} {image : Path}
    (member : image ∈ tree.images paths) : image.isImage = true := by
  obtain ⟨path, -, listed⟩ := List.mem_flatMap.mp member
  exact isImage_of_mem_imagesAt listed

namespace Alike

variable {backups : Bool} {path : Path} {left right : FileTree}
  (alike : left.Alike backups path right)

theorem refl (backups : Bool) (path : Path) (tree : FileTree) : tree.Alike backups path tree :=
  ⟨rfl, fun _ _ => Iff.rfl, fun _ _ => rfl⟩

theorem of_touched {before after : FileTree} {spots : Location → Prop}
    (touched : Touched spots before after)
    (spared : ∀ location, before.Reaches backups path location → ¬ spots location) :
    before.Alike backups path after :=
  ⟨touched.barriers.symm, fun other location => (touched.leads other location).symm,
    fun location reached => (touched.node?_of_not_spot (spared location reached)).symm⟩

include alike

theorem trans {last : FileTree} (later : right.Alike backups path last) :
    left.Alike backups path last :=
  ⟨alike.barriers.trans later.barriers,
    fun other location => (alike.leads other location).trans (later.leads other location),
    fun location reached => (alike.same location reached).trans
      (later.same location ((reaches_iff_of_leads alike.leads location).mp reached))⟩

theorem read_iff (content : Bytes) :
    left.read path = .ok content ↔ right.read path = .ok content := by
  rw [read_eq_ok_iff, read_eq_ok_iff]
  refine exists_congr fun location => ?_
  rw [← alike.leads]
  refine and_congr_right fun found => ?_
  rw [alike.same location (reaches_of_locate found)]

theorem holds_eq {other : Path} (within : ∀ location, left.locate other = .ok location →
    left.Reaches backups path location) : left.holds other = right.holds other := by
  rw [Bool.eq_iff_iff, holds_iff, holds_iff]
  refine exists_congr fun location => ?_
  rw [← alike.leads]
  refine and_congr_right fun found => ?_
  rw [alike.same location (within location found)]

theorem writable_iff {other : Path} (within : ∀ location, left.locate other = .ok location →
    left.Reaches backups path location) (location : Location) :
    left.writable other = .ok location ↔ right.writable other = .ok location := by
  rw [writable_eq_ok_iff, writable_eq_ok_iff, ← alike.leads, barrier?_congr alike.barriers]
  refine and_congr_right fun found => ?_
  rw [alike.same location (within location found.2)]

theorem put {place : Location} (free : left.node? place ≠ some .directory)
    (otherFree : right.node? place ≠ some .directory) (content : Bytes) :
    (left.put place (.file content)).Alike backups path (right.put place (.file content)) := by
  have leads := locate_put_iff free content
  refine ⟨alike.barriers, fun path location => ?_, fun location reached => ?_⟩
  · rw [leads, locate_put_iff otherFree, alike.leads]
  · rw [node?_put_file free, node?_put_file otherFree,
      alike.same location ((reaches_iff_of_leads leads location).mp reached)]

/-- Writing the same content within reach succeeds in both trees, which stay alike, or in none. -/
theorem write {other : Path} (within : ∀ location, left.locate other = .ok location →
    left.Reaches backups path location) (content : Bytes) :
    (∃ leftAfter rightAfter, left.write other content = .ok leftAfter ∧
      right.write other content = .ok rightAfter ∧ leftAfter.Alike backups path rightAfter) ∨
    ∃ cause otherCause, left.write other content = .error cause ∧
      right.write other content = .error otherCause := by
  have both : (∃ after, left.write other content = .ok after) ↔
      ∃ after, right.write other content = .ok after := by
    rw [exists_write_iff, exists_write_iff]
    refine exists_congr fun location => ?_
    rw [alike.writable_iff within, fitting_congr alike.barriers]
  cases written : left.write other content with
  | error cause =>
      cases otherWritten : right.write other content with
      | error otherCause => exact .inr ⟨cause, otherCause, rfl, rfl⟩
      | ok after => simp [written, otherWritten] at both
  | ok leftAfter =>
      obtain ⟨rightAfter, otherWritten⟩ := both.mp ⟨leftAfter, written⟩
      obtain ⟨place, found, -, rfl⟩ := write_eq_ok_iff.mp written
      obtain ⟨otherPlace, otherFound, -, rfl⟩ := write_eq_ok_iff.mp otherWritten
      obtain rfl := Except.ok.inj (((alike.writable_iff within place).mp found).symm.trans otherFound)
      exact .inl ⟨_, _, rfl, otherWritten, alike.put (writable_eq_ok_iff.mp found).2.1
        (writable_eq_ok_iff.mp otherFound).2.1 content⟩

/-- Copying the file within reach ends alike in both trees, also if it gets no further than a part. -/
theorem copy {other : Path} (within : ∀ location, left.locate other = .ok location →
    left.Reaches backups path location) :
    (left.copy path other).1.isOk = (right.copy path other).1.isOk ∧
      (left.copy path other).2.Alike backups path (right.copy path other).2 := by
  unfold FileTree.copy
  cases read : left.read path with
  | error cause =>
      cases otherRead : right.read path with
      | error otherCause => exact ⟨rfl, alike⟩
      | ok content => simp [(alike.read_iff content).mpr otherRead] at read
  | ok content =>
      rw [(alike.read_iff content).mp read]
      cases found : left.writable other with
      | error cause =>
          cases otherFound : right.writable other with
          | error otherCause => exact ⟨rfl, alike⟩
          | ok place => simp [(alike.writable_iff within place).mpr otherFound] at found
      | ok place =>
          have otherFound := (alike.writable_iff within place).mp found
          simp only [otherFound, fitting_congr alike.barriers]
          exact ⟨trivial, alike.put (writable_eq_ok_iff.mp found).2.1
            (writable_eq_ok_iff.mp otherFound).2.1 _⟩

end Alike

end FileTree

end PhotoTags
