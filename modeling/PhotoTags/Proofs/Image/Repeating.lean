import PhotoTags.Proofs.Image.Overriding
import PhotoTags.Proofs.Image.Thumbnail
import PhotoTags.Proofs.Tiff.Rewriting

/-!
The same attributes written into an image twice. The second write finds what the first one wrote,
makes the same block of it and puts it where it was, so that it changes nothing. It only fails if the
first write lost the image data, as the image can then no longer be read.
-/

namespace PhotoTags.Image

open Tiff (fieldsAt)

/-- Fields that are read again and merged with the same new ones once more are those of before, as
far as the layout takes them over. -/
theorem sameRuns_merged {old kept new : List Tiff.Field} (about : ∀ field ∈ new, field.chain = 0)
    (same : SameRuns Tiff.Field.place (kept.filter Tiff.isWritable)
      ((merged old new).filter Tiff.isWritable)) :
    SameRuns Tiff.Field.place ((merged kept new).filter Tiff.isWritable)
      ((merged old new).filter Tiff.isWritable) := by
  rintro ⟨chain, directory, id⟩
  have run (fields : List Tiff.Field) :
      (fields.filter Tiff.isWritable).filter (·.place = (chain, directory, id)) =
        (fieldsAt chain directory id fields).filter Tiff.isWritable :=
    List.filter_comm ..
  have again := same (chain, directory, id)
  rw [run, run, fieldsAt_merged about] at again
  rw [run, run, fieldsAt_merged about, fieldsAt_merged about]
  by_cases replaced : fieldsAt chain directory id new = []
  · rw [if_pos replaced] at again
    rwa [if_pos replaced, if_pos replaced]
  · rw [if_neg replaced, if_neg replaced]

theorem newBlock?_again {segments again : List Jpeg.Segment} {entries : List Entry} {block : Bytes}
    (encoded : newBlock? segments (Selection.ofEntries entries).fields = some block)
    (short : block.length < 65536) (held : Jpeg.exifBlock? again = some block) :
    newBlock? again (Selection.ofEntries entries).fields = some block := by
  have sound : ∀ field ∈ fieldsAfter segments (Selection.ofEntries entries).fields,
      field.Stored ∧ (field.chain = 0 ∨ field.chain = 1) := sound_of_mem_fieldsAfter
  obtain ⟨kept, content, same⟩ := Tiff.sameRuns_ofBlock (fun field member => (sound field member).1)
    (fun field member => (sound field member).2) chain_fieldsAfter thumbnail_contentOf_ne encoded short
  have contentIs :
      contentOf again = ⟨(contentOf segments).order, kept, (contentOf segments).thumbnail⟩ := by
    rw [contentOf, held]
    exact content
  rw [newBlock?, fieldsAfter, contentIs, ← encoded, newBlock?, fieldsAfter]
  exact Tiff.blockBytes?_congr _ _ (sameRuns_merged (chain_fields_ofEntries entries) same)

/-- The new segments among which a block was put take the same block to the same place. -/
theorem withExif?_again {segments placed : List Jpeg.Segment} {block : Bytes}
    (located : Jpeg.withExif? segments block = some placed) :
    Jpeg.withExif? placed block = some placed := by
  obtain ⟨many, rfl⟩ := Jpeg.withExif?_eq_some_iff.mp located
  have plain : ∀ segment ∈ segments.filter Jpeg.isOther, segment.isExif = false :=
    Jpeg.isExif_eq_false_of_isOther
  have latest : Jpeg.exifPlace segments ≤ Jpeg.latestPlace := Nat.min_le_right ..
  have others := Jpeg.filter_insertAt plain (Jpeg.exifPlace segments) block
  have place : Jpeg.exifPlace (Jpeg.insertAt (Jpeg.exifPlace segments) (.ofBlock block)
      (segments.filter Jpeg.isOther)) = Jpeg.exifPlace segments := by
    rw [Jpeg.exifPlace, Jpeg.exifIndex?_insertAt plain _ (Nat.le_trans latest many),
      Option.getD_some, Nat.min_eq_left latest]
  refine Jpeg.withExif?_eq_some_iff.mpr ⟨?_, ?_⟩
  · rwa [others]
  · rw [others, place]

/-- A plan for the image that was written is the plan that it was written by, if the image can be
read at all. -/
theorem plan_again {bytes output : Bytes} {entries : List Entry}
    {segments placed : List Jpeg.Segment} (parsed : Jpeg.read bytes = .ok segments)
    (planned : plan bytes (Selection.ofEntries entries).fields = .ok (.segments placed))
    (written : Jpeg.write? placed = some output) :
    plan output (Selection.ofEntries entries).fields =
      if Jpeg.HasScan segments then .ok (.segments placed)
      else .error (.error (.unreadable .truncated)) := by
  obtain ⟨others, block, same, encoded, located⟩ := plan_eq_segments_iff.mp planned
  obtain rfl := Except.ok.inj (parsed.symm.trans same)
  have again := withExif?_again located
  obtain ⟨many, rfl⟩ := Jpeg.withExif?_eq_some_iff.mp located
  obtain ⟨bounds, rfl⟩ := Jpeg.write?_eq_some_iff.mp written
  have short : (Jpeg.exifMark ++ block).length ≤ Jpeg.maxContents :=
    bounds (.ofBlock block) (List.mem_append_right _ (List.mem_cons_self ..))
  have result := Jpeg.read_insertAt_exifPlace (Jpeg.parsed_of_read parsed) many short
  dsimp only at result
  split
  · rename_i scan
    rw [if_pos scan] at result
    have blockShort : block.length < 65536 := by
      rw [List.length_append, Jpeg.maxContents] at short
      omega
    have plain : ∀ segment ∈ segments.filter Jpeg.isOther, segment.isExif = false :=
      Jpeg.isExif_eq_false_of_isOther
    have held := Jpeg.exifBlock?_insertAt plain (Jpeg.exifPlace segments) block
    rw [plan_of_newBlock? result (newBlock?_again encoded blockShort held), again]
  · rename_i lost
    rw [if_neg lost] at result
    rw [plan, result]

/-- Writing the same attributes again gives the same answer and leaves all files as they are, if the
first write had nothing to do or kept the image data; otherwise the image cannot be read. -/
theorem save_again {path : Path} {entries : List Entry} {tree after : FileTree} {saved : Saved}
    (succeeded : save false path entries tree = (.ok saved, after)) :
    ∃ bytes segments, tree.read path = .ok bytes ∧ Jpeg.read bytes = .ok segments ∧
      if plan bytes (Selection.ofEntries entries).fields = .ok .unchanged ∨ Jpeg.HasScan segments then
        save false path entries after = (.ok saved, after)
      else
        save false path entries after = (.error (.error (.unreadable .truncated)), after) := by
  obtain ⟨bytes, read, ⟨planned, rfl, -⟩ | ⟨placed, middle, planned, copied, stored, savedIs⟩⟩ :=
    save_eq_ok_iff.mp succeeded
  · obtain ⟨segments, parsed, -⟩ := plan_eq_unchanged_iff.mp planned
    exact ⟨bytes, segments, read, parsed, by rwa [if_pos (.inl planned)]⟩
  · obtain ⟨segments, -, parsed, -⟩ := plan_eq_segments_iff.mp planned
    obtain rfl := (Prod.mk.inj copied).2
    obtain ⟨output, made, put⟩ := writeSegments_eq_ok_iff.mp stored
    have readAgain := FileTree.read_write put
    have planAgain := plan_again parsed planned made
    have changes : plan bytes (Selection.ofEntries entries).fields ≠ .ok .unchanged := by
      rw [planned]
      simp
    refine ⟨bytes, segments, read, parsed, ?_⟩
    by_cases scan : Jpeg.HasScan segments
    · rw [if_pos scan] at planAgain
      rw [if_pos (.inr scan)]
      refine save_eq_ok_iff.mpr ⟨output, readAgain, .inr ⟨placed, after, planAgain, rfl, ?_, savedIs⟩⟩
      exact writeSegments_eq_ok_iff.mpr ⟨output, made, FileTree.write_again put⟩
    · rw [if_neg scan] at planAgain
      rw [if_neg (not_or.mpr ⟨changes, scan⟩), save, readAgain]
      simp only [planAgain]
      rfl

theorem save_again_over_little_endian :
    let image : Bytes := [0xFF, 0xD8, 0xFF, 0xE0, 0, 2, 0xFF, 0xFE, 0, 3, 7, 0xFF, 0xE1, 0, 0x22,
      0x45, 0x78, 0x69, 0x66, 0, 0, 0x49, 0x49, 0x2A, 0, 8, 0, 0, 0, 1, 0, 0x0F, 1, 2, 0, 4, 0, 0, 0,
      0x46, 0x4F, 0x4F, 0, 0, 0, 0, 0, 0xFF, 0xDA, 0, 3, 1, 9, 9]
    let tree : FileTree := { nodes := [(["a.jpg"], .file image)] }
    let entries := [("Orientation", "6"), ("Lens", "50"), ("FNumber", "28/10")]
    let answer := save false ⟨"a.jpg"⟩ entries tree
    answer.1 = .ok ⟨["Orientation", "FNumber"], ["Lens"], none⟩ ∧
      save false ⟨"a.jpg"⟩ entries answer.2 = answer := by
  intro image tree entries answer
  have saved : answer.1 = .ok ⟨["Orientation", "FNumber"], ["Lens"], none⟩ := by decide +kernel
  have whole : answer = (answer.1, answer.2) := (Prod.eta answer).symm
  rw [saved] at whole
  obtain ⟨bytes, segments, read, parsed, again⟩ := save_again whole
  obtain rfl : image = bytes := Except.ok.inj read
  have known : Jpeg.read image = .ok [⟨0xE0, [], []⟩, ⟨0xFE, [7], []⟩,
      .ofBlock [0x49, 0x49, 0x2A, 0, 8, 0, 0, 0, 1, 0, 0x0F, 1, 2, 0, 4, 0, 0, 0, 0x46, 0x4F, 0x4F,
        0, 0, 0, 0, 0], ⟨0xDA, [1], [9, 9]⟩] := by
    decide
  obtain rfl := Except.ok.inj (known.symm.trans parsed)
  rw [if_pos (.inr (by decide))] at again
  exact ⟨saved, again.trans whole.symm⟩

/-- The second write fails if the first one lost the image data. -/
theorem save_again_unreadable :
    let image : Bytes := [0xFF, 0xD8, 0xFF, 0xE0, 0, 2, 0xFF, 0xFE, 0, 2, 0xFF, 0xFE, 0, 2, 0xFF, 0xDA,
      0, 2, 1, 2, 3, 0xFF, 0xD9]
    let tree : FileTree := { nodes := [(["a.jpg"], .file image)] }
    let answer := save false ⟨"a.jpg"⟩ [("Make", "FOO")] tree
    answer.1 = .ok ⟨["Make"], [], none⟩ ∧
      (save false ⟨"a.jpg"⟩ [("Make", "FOO")] answer.2).1 =
        .error (.error (.unreadable .truncated)) := by
  intro image tree answer
  exact ⟨by decide +kernel, by decide +kernel⟩

end PhotoTags.Image
