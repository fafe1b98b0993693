import Mathlib.Data.List.Induction
import PhotoTags.Proofs.Files.Writing
import PhotoTags.Proofs.Image.Outcome
import PhotoTags.Proofs.Jpeg.Replacing

/-!
The segments of an image into which attributes were written: those of before with one Exif segment
in place of all that were there. A start of scan without contents loses its image data on the way,
and the image can then no longer be read.
-/

namespace PhotoTags.Image

theorem eq_of_unchanged {backups : Bool} {path : Path} {entries : List Entry}
    {tree after : FileTree} {bytes : Bytes} {saved : Saved} (read : tree.read path = .ok bytes)
    (succeeded : save backups path entries tree = (.ok saved, after))
    (unchanged : plan bytes (Selection.ofEntries entries).fields = .ok .unchanged) :
    after = tree := by
  have outcome := save_outcome backups path entries tree
  rw [succeeded] at outcome
  cases outcome with
  | idle _ _ _ => rfl
  | written again planned _ _ =>
      obtain rfl := Except.ok.inj (read.symm.trans again)
      simp [unchanged] at planned

theorem exists_written {backups : Bool} {path : Path} {entries : List Entry}
    {tree after : FileTree} {bytes : Bytes} {segments : List Jpeg.Segment} {saved : Saved}
    (read : tree.read path = .ok bytes) (parsed : Jpeg.read bytes = .ok segments)
    (succeeded : save backups path entries tree = (.ok saved, after))
    (changes : plan bytes (Selection.ofEntries entries).fields ≠ .ok .unchanged) :
    ∃ block, newBlock? segments (Selection.ofEntries entries).fields = some block ∧
      Jpeg.latestPlace ≤ (segments.filter Jpeg.isOther).length ∧
      (Jpeg.exifMark ++ block).length ≤ Jpeg.maxContents ∧
      after.read path = .ok (Jpeg.startBytes ++ (Jpeg.insertAt (Jpeg.exifPlace segments)
        (.ofBlock block) (segments.filter Jpeg.isOther)).flatMap Jpeg.Segment.bytes) := by
  have outcome := save_outcome backups path entries tree
  rw [succeeded] at outcome
  cases outcome with
  | idle again planned _ =>
      obtain rfl := Except.ok.inj (read.symm.trans again)
      exact absurd planned changes
  | written again planned _ stored =>
      obtain rfl := Except.ok.inj (read.symm.trans again)
      obtain ⟨others, block, same, encoded, located⟩ := plan_eq_segments_iff.mp planned
      obtain rfl := Except.ok.inj (parsed.symm.trans same)
      obtain ⟨many, rfl⟩ := Jpeg.withExif?_eq_some_iff.mp located
      obtain ⟨output, made, put⟩ := writeSegments_eq_ok_iff.mp stored
      obtain ⟨short, rfl⟩ := Jpeg.write?_eq_some_iff.mp made
      refine ⟨block, encoded, many, ?_, FileTree.read_write put⟩
      exact short (.ofBlock block) (List.mem_append_right _ (List.mem_cons_self ..))

/-- After writing, the image can be read again if and only if its image data stand behind a start of
scan with contents. Then its segments are those of before, with a single Exif segment for all that
there were; before it stand the segments that stood there, none of them from behind the first Exif
segment, and without one it is the second. -/
theorem save_replaces_exif {backups : Bool} {path : Path} {entries : List Entry}
    {tree after : FileTree} {bytes : Bytes} {segments : List Jpeg.Segment} {saved : Saved}
    (read : tree.read path = .ok bytes) (parsed : Jpeg.read bytes = .ok segments)
    (succeeded : save backups path entries tree = (.ok saved, after))
    (changes : plan bytes (Selection.ofEntries entries).fields ≠ .ok .unchanged) :
    ∃ output, after.read path = .ok output ∧
      ((∃ again, Jpeg.read output = .ok again) ↔ Jpeg.HasScan segments) ∧
      ∀ again, Jpeg.read output = .ok again →
        again.filter Jpeg.isOther = segments.filter Jpeg.isOther ∧
        (∃ block, again.filter Jpeg.Segment.isExif = [.ofBlock block]) ∧
        ∃ place, Jpeg.exifIndex? again = some place ∧ again.take place = segments.take place ∧
          (∀ original, Jpeg.exifIndex? segments = some original → place ≤ original) ∧
          (Jpeg.exifIndex? segments = none → place = 1) := by
  obtain ⟨block, _, many, short, written⟩ := exists_written read parsed succeeded changes
  have result := Jpeg.read_insertAt_exifPlace (Jpeg.parsed_of_read parsed) many short
  have plain : ∀ segment ∈ segments.filter Jpeg.isOther, segment.isExif = false :=
    Jpeg.isExif_eq_false_of_isOther
  have bound : Jpeg.exifPlace segments ≤ (segments.filter Jpeg.isOther).length := by
    rw [Jpeg.exifPlace]
    omega
  dsimp only at result
  refine ⟨_, written, ?_, ?_⟩
  · rw [result]
    split <;> simp_all
  · intro again same
    rw [result] at same
    split at same
    · obtain rfl := Except.ok.inj same
      refine ⟨Jpeg.filter_insertAt plain _ block, ⟨block, Jpeg.filter_isExif_insertAt plain _⟩, ?_⟩
      refine ⟨_, Jpeg.exifIndex?_insertAt plain _ bound block, ?_, ?_, ?_⟩
      · rw [Jpeg.take_insertAt bound, Jpeg.take_exifPlace]
      · intro original found
        simp only [Jpeg.exifPlace, found, Option.getD_some]
        omega
      · intro none
        simp [Jpeg.exifPlace, none, Jpeg.latestPlace]
    · simp at same

theorem save_replaces_third_segment :
    let image : Bytes := [0xFF, 0xD8, 0xFF, 0xFE, 0, 2, 0xFF, 0xE0, 0, 2, 0xFF, 0xE1, 0, 8, 0x45, 0x78,
      0x69, 0x66, 0, 0, 0xFF, 0xFE, 0, 3, 7, 0xFF, 0xDA, 0, 3, 1, 9, 9]
    let tree : FileTree := { nodes := [(["a.jpg"], .file image)] }
    let answer := save false ⟨"a.jpg"⟩ [("Make", "FOO")] tree
    answer.1 = .ok ⟨["Make"], [], none⟩ ∧
      ∃ output again place, answer.2.read ⟨"a.jpg"⟩ = .ok output ∧ Jpeg.read output = .ok again ∧
        again.filter Jpeg.isOther =
          [⟨0xFE, [], []⟩, ⟨0xE0, [], []⟩, ⟨0xFE, [7], []⟩, ⟨0xDA, [1], [9, 9]⟩] ∧
        Jpeg.exifIndex? again = some place ∧ place ≤ 2 := by
  intro image tree answer
  have parsed : Jpeg.read image = .ok [⟨0xFE, [], []⟩, ⟨0xE0, [], []⟩,
      ⟨0xE1, [0x45, 0x78, 0x69, 0x66, 0, 0], []⟩, ⟨0xFE, [7], []⟩, ⟨0xDA, [1], [9, 9]⟩] := by
    decide
  have read : tree.read ⟨"a.jpg"⟩ = .ok image := rfl
  have saved : answer.1 = .ok ⟨["Make"], [], none⟩ := by decide +kernel
  obtain ⟨output, written, readable, same⟩ :=
    save_replaces_exif read parsed (Prod.ext saved rfl) (by decide +kernel)
  obtain ⟨again, readAgain⟩ := readable.mpr (by decide)
  obtain ⟨others, -, place, found, -, early, -⟩ := same again readAgain
  exact ⟨saved, output, again, place, written, readAgain, others, found, early 2 (by decide)⟩

/-- A start of scan without contents can be read, but its image data are not written. -/
theorem save_loses_image_data :
    let image : Bytes := [0xFF, 0xD8, 0xFF, 0xE0, 0, 2, 0xFF, 0xFE, 0, 2, 0xFF, 0xFE, 0, 2, 0xFF, 0xDA,
      0, 2, 1, 2, 3, 0xFF, 0xD9]
    let tree : FileTree := { nodes := [(["a.jpg"], .file image)] }
    let answer := save false ⟨"a.jpg"⟩ [("Make", "FOO")] tree
    Jpeg.read image = .ok [⟨0xE0, [], []⟩, ⟨0xFE, [], []⟩, ⟨0xFE, [], []⟩,
        ⟨0xDA, [], [1, 2, 3, 0xFF, 0xD9]⟩] ∧
      answer.1 = .ok ⟨["Make"], [], none⟩ ∧
      ∃ output, answer.2.read ⟨"a.jpg"⟩ = .ok output ∧ Jpeg.read output = .error .truncated := by
  intro image tree answer
  refine ⟨by decide, by decide +kernel, (answer.2.read ⟨"a.jpg"⟩).toOption.getD [], ?_, ?_⟩
  · decide +kernel
  · decide +kernel

end PhotoTags.Image
