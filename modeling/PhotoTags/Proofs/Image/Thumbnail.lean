import PhotoTags.Proofs.Image.Merging
import PhotoTags.Proofs.Image.Reported
import PhotoTags.Proofs.Tiff.Thumbnail

/-!
The thumbnail of an image into which attributes are written. What is shown as the thumbnail is looked
up in one way and what is kept in another. It is shown again afterwards if both ways lead to the same
bytes, and the new block is found and walked to the end.
-/

namespace PhotoTags.Image

theorem thumbnailAt_eq_ok {tree : FileTree} {path : Path} {shown : Option Bytes}
    (read : thumbnailAt tree path = .ok shown) :
    ∃ image segments, tree.read path = .ok image ∧ Jpeg.read image = .ok segments ∧
      thumbnail image = .ok shown := by
  unfold thumbnailAt readAt at read
  split at read
  · simp at read
  · rename_i image held
    split at read
    · simp at read
    · rename_i found shownIs
      obtain rfl := Except.ok.inj read
      cases parsed : Jpeg.read image with
      | error cause => simp [thumbnail, survey, parsed, Except.map] at shownIs
      | ok segments => exact ⟨image, segments, held, parsed, shownIs⟩

theorem thumbnailAt_of_read {tree : FileTree} {path : Path} {image : Bytes}
    (read : tree.read path = .ok image) (shown : Option Bytes) :
    thumbnailAt tree path = .ok shown ↔ thumbnail image = .ok shown := by
  rw [thumbnailAt, readAt, read]
  cases there : thumbnail image <;> simp [there]

theorem hasThumbnail_of_thumbnailAt {tree : FileTree} {path : Path} {bytes : Bytes}
    (shown : thumbnailAt tree path = .ok (some bytes)) :
    ∃ found, findingsAt tree path = .ok found ∧ found.hasThumbnail = true := by
  obtain ⟨image, segments, held, -, there⟩ := thumbnailAt_eq_ok shown
  unfold thumbnail at there
  cases surveyed : survey image with
  | error cause => simp [surveyed, Except.map] at there
  | ok found =>
      cases found with
      | none => simp [surveyed, Except.map] at there
      | some survey =>
          have same : survey.thumbnail? = some bytes := by
            simpa [surveyed, Except.map] using there
          refine ⟨⟨survey.entries, survey.thumbnail?.isSome⟩, ?_, by rw [same]; rfl⟩
          simp [findingsAt, readAt, held, read, surveyed, Except.map]

def NoInnerPointers (segments : List Jpeg.Segment) : Prop :=
  ∀ field ∈ fieldsIn segments, field.chain = 0 → field.directory = .exif ∨ field.directory = .gps →
    Tiff.isPointerId field.id = false

def Numbered (segments : List Jpeg.Segment) : Prop :=
  ∀ field ∈ fieldsIn segments, field.directory = .main → field.id ≠ 0

section

variable {segments : List Jpeg.Segment} {entries : List Entry}

theorem thumbnail_contentOf_ne : (contentOf segments).thumbnail ≠ some [] := by
  unfold contentOf
  split
  · exact Tiff.Content.thumbnail_ofBlock_ne _
  · simp [Tiff.Content.empty]

theorem noPointers_fieldsAfter (noPointers : NoInnerPointers segments) :
    ∀ field ∈ fieldsAfter segments (Selection.ofEntries entries).fields, field.chain = 0 →
      field.directory = .exif ∨ field.directory = .gps → Tiff.isPointerId field.id = false := by
  intro field member first hanging
  rcases mem_merged.mp member with ⟨old, -⟩ | new
  · exact noPointers field (mem_fields_contentOf.mp old).1 first hanging
  · obtain ⟨tag, listed, found⟩ := mem_fields_ofEntries.mp new
    rw [(isOf_of_fieldIn? found).1.2]
    exact (Tag.sound_of_table tag listed).2.1

theorem chain_fieldsAfter (alone : (contentOf segments).thumbnail = none) :
    ∀ field ∈ fieldsAfter segments (Selection.ofEntries entries).fields, field.chain = 0 := by
  intro field member
  rcases mem_merged.mp member with ⟨old, -⟩ | new
  · exact (mem_fields_contentOf.mp old).2.resolve_right (by simp [alone])
  · obtain ⟨tag, -, found⟩ := mem_fields_ofEntries.mp new
    exact (isOf_of_fieldIn? found).2

/-- No attribute has the number 0, so that a field with that number is neither new nor replaced. -/
theorem numbered_fieldsAfter_iff {bytes : Bytes}
    (held : (contentOf segments).thumbnail = some bytes) :
    (∀ field ∈ fieldsAfter segments (Selection.ofEntries entries).fields,
      field.directory = .main → field.id ≠ 0) ↔ Numbered segments := by
  have positive {field : Tiff.Field}
      (new : field ∈ (Selection.ofEntries entries).fields) : field.id ≠ 0 := by
    obtain ⟨tag, listed, found⟩ := mem_fields_ofEntries.mp new
    rw [(isOf_of_fieldIn? found).1.2]
    exact Nat.ne_of_gt (Tag.sound_of_table tag listed).1.1
  constructor
  · intro numbered field member main zero
    refine numbered field (mem_merged.mpr (.inl ⟨?_, ?_⟩)) main zero
    · exact mem_fields_contentOf.mpr ⟨member, .inr (by rw [held]; rfl)⟩
    · rintro ⟨-, other, new, same⟩
      simp only [sameTag, Bool.and_eq_true, decide_eq_true_eq] at same
      exact positive new (same.2.symm.trans zero)
  · intro numbered field member main
    rcases mem_merged.mp member with ⟨old, -⟩ | new
    · exact numbered field (mem_fields_contentOf.mp old).1 main
    · exact positive new

/-- What is kept of the thumbnail is shown of a new block if its main directories are walked. -/
theorem thumbnail?_newBlock_iff {block : Bytes}
    (encoded : newBlock? segments (Selection.ofEntries entries).fields = some block)
    (short : block.length < 65536) (noPointers : NoInnerPointers segments) :
    ∃ survey, Tiff.survey? block = some survey ∧ ∀ bytes, survey.thumbnail? block = some bytes ↔
      (contentOf segments).thumbnail = some bytes ∧ Numbered segments := by
  have sound (field : Tiff.Field)
      (member : field ∈ fieldsAfter segments (Selection.ofEntries entries).fields) :=
    sound_of_mem_fieldsAfter field member
  obtain ⟨second, places, later, chained⟩ :=
    Tiff.chained_of_blockBytes? (fun field member => (sound field member).1) encoded short
  obtain ⟨survey, surveyed, shown⟩ := chained.thumbnail?_eq_some_iff
    (noPointers_fieldsAfter noPointers) chain_fieldsAfter
    (fun field member => (sound field member).2) thumbnail_contentOf_ne
  refine ⟨survey, surveyed, fun bytes => ?_⟩
  rw [shown bytes]
  exact and_congr_right fun held => numbered_fieldsAfter_iff held

end

/-- The reading of an image with a new block gets to the block if the scan gets past the segments
before it. -/
theorem survey_insertAt_exifPlace {segments : List Jpeg.Segment} {block : Bytes}
    (parsed : Jpeg.Parsed segments)
    (many : Jpeg.latestPlace ≤ (segments.filter Jpeg.isOther).length)
    (short : (Jpeg.exifMark ++ block).length ≤ Jpeg.maxContents) (nonempty : block ≠ []) :
    let now := Jpeg.startBytes ++ (Jpeg.insertAt (Jpeg.exifPlace segments) (.ofBlock block)
      (segments.filter Jpeg.isOther)).flatMap Jpeg.Segment.bytes
    survey now =
      if Jpeg.HasScan segments then
        .ok (if Jpeg.scanMinimum ≤ now.length ∧
            Jpeg.IsPassableTo (Jpeg.exifPlace segments) segments then
          (Tiff.survey? block).map fun walk => ⟨block, block, walk⟩
        else none)
      else .error .truncated := by
  intro now
  have plain : ∀ segment ∈ segments.filter Jpeg.isOther, segment.isExif = false :=
    Jpeg.isExif_eq_false_of_isOther
  have front := Jpeg.plain_before_exifPlace parsed many
  have again : Jpeg.read now = _ := Jpeg.read_insertAt_exifPlace parsed many short
  have scanned : Jpeg.scan? now = _ := Jpeg.scan?_startBytes_append
    (Jpeg.parsed_insertAt (parsed.filter Jpeg.isOther) front short)
  have held := Jpeg.exifBlock?_insertAt plain (Jpeg.exifPlace segments) block
  have passable : Jpeg.IsPassableTo (Jpeg.exifPlace segments) (segments.filter Jpeg.isOther) ↔
      Jpeg.IsPassableTo (Jpeg.exifPlace segments) segments := by
    rw [Jpeg.IsPassableTo, Jpeg.IsPassableTo, Jpeg.take_exifPlace]
  rw [Jpeg.firstBlock?_insertAt front plain nonempty] at scanned
  simp only [passable] at scanned
  rw [survey, again]
  by_cases readable : Jpeg.HasScan segments
  · rw [if_pos readable, if_pos readable]
    dsimp only
    rw [held, scanned]
    by_cases long : now.length < Jpeg.scanMinimum
    · rw [if_pos long, if_neg fun both => Nat.not_lt.mpr both.1 long]
    · rw [if_neg long]
      by_cases passes : Jpeg.IsPassableTo (Jpeg.exifPlace segments) segments
      · rw [if_pos passes, if_pos ⟨Nat.le_of_not_lt long, passes⟩]
      · rw [if_neg passes, if_neg fun both => passes both.2]
  · rw [if_neg readable, if_neg readable]

structure Findable (segments : List Jpeg.Segment) (now bytes : Bytes) : Prop where
  readable : Jpeg.HasScan segments
  long : Jpeg.scanMinimum ≤ now.length
  passable : Jpeg.IsPassableTo (Jpeg.exifPlace segments) segments
  numbered : Numbered segments
  held : (contentOf segments).thumbnail = some bytes

theorem thumbnail_saved {backups : Bool} {path : Path} {entries : List Entry}
    {tree after : FileTree} {image : Bytes} {segments : List Jpeg.Segment} {saved : Saved}
    (read : tree.read path = .ok image) (parsed : Jpeg.read image = .ok segments)
    (succeeded : save backups path entries tree = (.ok saved, after))
    (changes : plan image (Selection.ofEntries entries).fields ≠ .ok .unchanged)
    (noPointers : NoInnerPointers segments) :
    ∃ now, after.read path = .ok now ∧ ∀ bytes,
      thumbnail now = .ok (some bytes) ↔ Findable segments now bytes := by
  obtain ⟨block, encoded, many, short, written⟩ := exists_written read parsed succeeded changes
  have blockShort : block.length < 65536 := by
    rw [List.length_append, Jpeg.maxContents] at short
    omega
  obtain ⟨walk, walked, shown⟩ := thumbnail?_newBlock_iff encoded blockShort noPointers
  have nonempty : block ≠ [] := by
    rintro rfl
    simp [Tiff.survey?, Tiff.header?, Tiff.ByteOrder.ofMark?, Tiff.ByteOrder.mark] at walked
  have surveyed := survey_insertAt_exifPlace (Jpeg.parsed_of_read parsed) many short nonempty
  dsimp only at surveyed
  refine ⟨_, written, fun bytes => ?_⟩
  rw [thumbnail, surveyed, walked]
  by_cases readable : Jpeg.HasScan segments
  · rw [if_pos readable]
    split
    · rename_i seen
      have same : walk.thumbnail? block = some bytes ↔
          (contentOf segments).thumbnail = some bytes ∧ Numbered segments := shown bytes
      simp only [Except.map, Option.map_some, Option.bind_some, Survey.thumbnail?, Except.ok.injEq,
        same]
      exact ⟨fun both => ⟨readable, seen.1, seen.2, both.2, both.1⟩,
        fun findable => ⟨findable.held, findable.numbered⟩⟩
    · rename_i unseen
      exact iff_of_false (by simp [Except.map]) fun findable =>
        unseen ⟨findable.long, findable.passable⟩
  · rw [if_neg readable]
    exact iff_of_false (by simp [Except.map]) fun findable => readable findable.readable

/-- The thumbnail of an image is shown after attributes were written into it, and the image is said to
have one, if and only if the image was left as it was or what is kept as its thumbnail are the same
bytes and are found. -/
theorem save_keeps_thumbnail_iff {backups : Bool} {path : Path} {entries : List Entry}
    {tree after : FileTree} {bytes : Bytes} {saved : Saved}
    (shown : thumbnailAt tree path = .ok (some bytes))
    (succeeded : save backups path entries tree = (.ok saved, after)) :
    ∃ image now segments, tree.read path = .ok image ∧ after.read path = .ok now ∧
      Jpeg.read image = .ok segments ∧ (NoInnerPointers segments →
        ((thumbnailAt after path = .ok (some bytes) ∧
            ∃ found, findingsAt after path = .ok found ∧ found.hasThumbnail = true) ↔
          now = image ∨ Findable segments now bytes)) := by
  obtain ⟨image, segments, read, parsed, there⟩ := thumbnailAt_eq_ok shown
  have both {now : Bytes} (readAfter : after.read path = .ok now) :
      (thumbnailAt after path = .ok (some bytes) ∧
        ∃ found, findingsAt after path = .ok found ∧ found.hasThumbnail = true) ↔
          thumbnail now = .ok (some bytes) := by
    rw [← thumbnailAt_of_read readAfter]
    exact and_iff_left_of_imp hasThumbnail_of_thumbnailAt
  by_cases unchanged : plan image (Selection.ofEntries entries).fields = .ok .unchanged
  · obtain rfl := eq_of_unchanged read succeeded unchanged
    refine ⟨image, image, segments, read, read, parsed, fun _ => ?_⟩
    rw [both read]
    exact iff_of_true there (.inl rfl)
  · obtain ⟨block, -, -, -, written⟩ := exists_written read parsed succeeded unchanged
    refine ⟨image, _, segments, read, written, parsed, fun noPointers => ?_⟩
    obtain ⟨now, readAfter, found⟩ := thumbnail_saved read parsed succeeded unchanged noPointers
    obtain rfl := Except.ok.inj (written.symm.trans readAfter)
    rw [both written, found bytes]
    constructor
    · exact .inr
    · rintro (same | findable)
      · rw [← found bytes, same]
        exact there
      · exact findable

theorem save_keeps_small_thumbnail :
    let image : Bytes := [0xFF, 0xD8, 0xFF, 0xE0, 0, 2, 0xFF, 0xE1, 0, 0x46, 0x45, 0x78, 0x69, 0x66,
      0, 0, 0x4D, 0x4D, 0, 0x2A, 0, 0, 0, 8, 0, 1, 1, 0x0F, 0, 2, 0, 0, 0, 4, 0x46, 0x4F, 0x4F, 0,
      0, 0, 0, 0x1A, 0, 2, 2, 1, 0, 4, 0, 0, 0, 1, 0, 0, 0, 0x38, 2, 2, 0, 4, 0, 0, 0, 1, 0, 0, 0,
      6, 0, 0, 0, 0, 0xFF, 0xD8, 0x41, 0x41, 0xFF, 0xD9, 0xFF, 0xFE, 0, 2, 0xFF, 0xFE, 0, 2, 0xFF,
      0xDA, 0, 3, 1] ++ List.replicate 100 0
    let tree : FileTree := { nodes := [(["a.jpg"], .file image)] }
    let answer := save false ⟨"a.jpg"⟩ [("Artist", "Zoe")] tree
    let bytes : Bytes := [0xFF, 0xD8, 0x41, 0x41, 0xFF, 0xD9]
    thumbnailAt tree ⟨"a.jpg"⟩ = .ok (some bytes) ∧ answer.1 = .ok ⟨["Artist"], [], none⟩ ∧
      thumbnailAt answer.2 ⟨"a.jpg"⟩ = .ok (some bytes) ∧
      ∃ found, findingsAt answer.2 ⟨"a.jpg"⟩ = .ok found ∧ found.hasThumbnail = true := by
  intro image tree answer bytes
  let known : List Jpeg.Segment := [⟨0xE0, [], []⟩, .ofBlock [0x4D, 0x4D, 0, 0x2A, 0, 0, 0, 8, 0, 1,
    1, 0x0F, 0, 2, 0, 0, 0, 4, 0x46, 0x4F, 0x4F, 0, 0, 0, 0, 0x1A, 0, 2, 2, 1, 0, 4, 0, 0, 0, 1, 0,
    0, 0, 0x38, 2, 2, 0, 4, 0, 0, 0, 1, 0, 0, 0, 6, 0, 0, 0, 0, 0xFF, 0xD8, 0x41, 0x41, 0xFF, 0xD9],
    ⟨0xFE, [], []⟩, ⟨0xFE, [], []⟩, ⟨0xDA, [1], List.replicate 100 0⟩]
  have shown : thumbnailAt tree ⟨"a.jpg"⟩ = .ok (some bytes) := by decide +kernel
  have answered : answer.1 = .ok ⟨["Artist"], [], none⟩ := by decide +kernel
  have succeeded : answer = (.ok ⟨["Artist"], [], none⟩, answer.2) := by
    rw [← answered]
  have knownParsed : Jpeg.read image = .ok known := by decide +kernel
  have knownFields : fieldsIn known = [⟨.main, 0x010F, 0, ⟨.ascii, [0x46, 0x4F, 0x4F, 0]⟩⟩,
      ⟨.main, 0x0201, 1, ⟨.long, [56]⟩⟩, ⟨.main, 0x0202, 1, ⟨.long, [6]⟩⟩] := by
    decide +kernel
  obtain ⟨original, now, segments, read, readAfter, parsed, kept⟩ :=
    save_keeps_thumbnail_iff shown succeeded
  obtain rfl : image = original := Except.ok.inj read
  obtain rfl := Except.ok.inj (knownParsed.symm.trans parsed)
  have noPointers : NoInnerPointers known := by
    rw [NoInnerPointers, knownFields]
    decide
  have numbered : Numbered known := by
    rw [Numbered, knownFields]
    decide
  have long : Jpeg.scanMinimum ≤ now.length := by
    have every : (answer.2.read ⟨"a.jpg"⟩).toOption.all
        (fun output => Jpeg.scanMinimum ≤ output.length) = true := by
      decide +kernel
    rw [readAfter] at every
    simpa [Except.toOption] using every
  have readable : Jpeg.HasScan known := by decide
  have passable : Jpeg.IsPassableTo (Jpeg.exifPlace known) known := by decide
  have held : (contentOf known).thumbnail = some bytes := by decide +kernel
  have findable : Findable known now bytes := ⟨readable, long, passable, numbered, held⟩
  exact ⟨shown, answered, (kept noPointers).mpr (.inr findable)⟩

/-- The first of two offsets with the first of two lengths is shown, the last ones are kept. -/
theorem save_swaps_thumbnails :
    let image : Bytes := [0xFF, 0xD8, 0xFF, 0xE0, 0, 2, 0xFF, 0xE1, 0, 0x65, 0x45, 0x78, 0x69, 0x66,
      0, 0, 0x4D, 0x4D, 0, 0x2A, 0, 0, 0, 8, 0, 1, 1, 0x0F, 0, 2, 0, 0, 0, 4, 0x46, 0x4F, 0x4F, 0,
      0, 0, 0, 0x1A, 0, 4, 2, 1, 0, 4, 0, 0, 0, 1, 0, 0, 0, 0x50, 2, 1, 0, 4, 0, 0, 0, 1, 0, 0, 0,
      0x58, 2, 2, 0, 4, 0, 0, 0, 1, 0, 0, 0, 8, 2, 2, 0, 4, 0, 0, 0, 1, 0, 0, 0, 5, 0, 0, 0, 0,
      0xFF, 0xD8, 0x41, 0x41, 0x41, 0x41, 0xFF, 0xD9, 0xFF, 0xD8, 0x42, 0xFF, 0xD9, 0xFF, 0xFE, 0,
      2, 0xFF, 0xFE, 0, 2, 0xFF, 0xDA, 0, 3, 1] ++ List.replicate 100 0
    let tree : FileTree := { nodes := [(["a.jpg"], .file image)] }
    let answer := save false ⟨"a.jpg"⟩ [("Artist", "Zoe")] tree
    thumbnailAt tree ⟨"a.jpg"⟩ = .ok (some [0xFF, 0xD8, 0x41, 0x41, 0x41, 0x41, 0xFF, 0xD9]) ∧
      answer.1 = .ok ⟨["Artist"], [], none⟩ ∧
      thumbnailAt answer.2 ⟨"a.jpg"⟩ = .ok (some [0xFF, 0xD8, 0x42, 0xFF, 0xD9]) := by
  intro image tree answer
  refine ⟨?_, ?_, ?_⟩
  · decide +kernel
  · decide +kernel
  · decide +kernel

end PhotoTags.Image
