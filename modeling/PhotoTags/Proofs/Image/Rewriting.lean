import PhotoTags.Proofs.Files.Writing
import PhotoTags.Proofs.Image.Listing
import PhotoTags.Proofs.Image.Outcome
import PhotoTags.Proofs.Jpeg.Scanning
import PhotoTags.Proofs.Tiff.Kept

/-!
An image without an Exif segment into which attributes are written again and again. From the first
write on it has one Exif segment, second among the others, whose block holds what all attributes
written so far say together; each further write reads that block and puts a new one in its place.
-/

namespace PhotoTags.Image

structure Rewritten (original : List Jpeg.Segment) (entries : List Entry) (block bytes : Bytes) :
    Prop where
  many : Jpeg.latestPlace ≤ original.length
  encoded : ∃ fields, Records fields entries ∧ Tiff.blockBytes? .big fields none = some block
  short : (Jpeg.exifMark ++ block).length ≤ Jpeg.maxContents
  written : bytes =
    Jpeg.startBytes ++ (Jpeg.insertAt 1 (.ofBlock block) original).flatMap Jpeg.Segment.bytes

/-- What is left of an image after attributes were written into it: the image as it was if there
were none, else the image with their block. -/
def Holding (image : Bytes) (original : List Jpeg.Segment) (entries : List Entry) (bytes : Bytes) :
    Prop :=
  entries = [] ∧ bytes = image ∨ ∃ block, Rewritten original entries block bytes

theorem Rewritten.short_block {original : List Jpeg.Segment} {entries : List Entry}
    {block bytes : Bytes} (rewritten : Rewritten original entries block bytes) :
    block.length < 65536 := by
  have short := rewritten.short
  rw [List.length_append, Jpeg.maxContents] at short
  omega

theorem Rewritten.laid {original : List Jpeg.Segment} {entries : List Entry} {block bytes : Bytes}
    (rewritten : Rewritten original entries block bytes) (canonical : Canonical entries) :
    ∃ fields exifAt gpsAt, Records fields entries ∧ Tiff.Laid .big block fields exifAt gpsAt := by
  obtain ⟨fields, records, encoded⟩ := rewritten.encoded
  obtain ⟨exifAt, gpsAt, laid⟩ :=
    Tiff.laid_of_blockBytes? (canonical.sound records) encoded rewritten.short_block
  exact ⟨fields, exifAt, gpsAt, records, laid⟩

theorem Rewritten.entries_ne_nil {original : List Jpeg.Segment} {entries : List Entry}
    {block bytes : Bytes} (rewritten : Rewritten original entries block bytes) : entries ≠ [] := by
  rintro rfl
  obtain ⟨fields, records, encoded⟩ := rewritten.encoded
  obtain ⟨field, member, -⟩ := List.any_eq_true.mp (any_chain_of_blockBytes? encoded)
  obtain ⟨tag, -, found⟩ := (records.members field).mp member
  simp [fieldIn?, Attributes.lastValue?] at found

theorem isExif_eq_false {segments : List Jpeg.Segment} (noExif : Jpeg.exifBlock? segments = none) :
    ∀ segment ∈ segments, segment.isExif = false := by
  intro segment member
  have none := Option.map_eq_none_iff.mp noExif
  simpa using List.find?_eq_none.mp none segment member

theorem eq_nil_of_records {entries : List Entry} (records : Records [] entries)
    (canonical : Canonical entries) : entries = [] := by
  refine List.eq_nil_iff_forall_not_mem.mpr fun entry member => ?_
  obtain ⟨tag, listed, named, -⟩ := canonical entry member
  have there : tag.name ∈ entries.map (·.1) := by
    rw [named]
    exact List.mem_map_of_mem member
  obtain ⟨_, _, -, found, -⟩ := canonical.written listed there
  exact absurd ((records.members _).mpr ⟨tag, listed, found⟩) List.not_mem_nil

section

variable {image : Bytes} {original : List Jpeg.Segment} {entries : List Entry} {bytes : Bytes}
  (parsed : Jpeg.read image = .ok original) (noExif : Jpeg.exifBlock? original = none)
  (canonical : Canonical entries)

include parsed noExif canonical

theorem Holding.segments (holding : Holding image original entries bytes)
    {segments : List Jpeg.Segment} (read : Jpeg.read bytes = .ok segments) :
    segments.filter Jpeg.isOther = original ∧ (Jpeg.exifIndex? segments).getD 1 = 1 ∧
      ∃ fields, contentOf segments = ⟨.big, fields, none⟩ ∧ Records fields entries := by
  have plain := isExif_eq_false noExif
  rcases holding with ⟨rfl, rfl⟩ | ⟨block, rewritten⟩
  · obtain rfl := Except.ok.inj (parsed.symm.trans read)
    refine ⟨?_, ?_, [], ?_, records_nil⟩
    · exact List.filter_eq_self.mpr fun segment member => by
        simp [Jpeg.isOther, plain segment member]
    · rw [Jpeg.exifIndex?, List.findIdx?_eq_none_iff.mpr plain, Option.getD_none]
    · rw [contentOf, noExif]
      rfl
  · have many : 2 ≤ original.length := Nat.le_trans (by decide) rewritten.many
    -- The block that was written last is the only Exif segment, at the index where it was put.
    have again := Jpeg.read_startBytes_append
      (Jpeg.parsed_insertAt (Jpeg.parsed_of_read parsed)
        ((Jpeg.parsed_of_read parsed).plain_of_lt many) rewritten.short)
    rw [← rewritten.written, read] at again
    split at again
    · obtain rfl := Except.ok.inj again
      obtain ⟨fields, records, encoded⟩ := rewritten.encoded
      obtain ⟨kept, content, perm⟩ :=
        Tiff.ofBlock_sound (canonical.sound records) encoded rewritten.short_block
      refine ⟨Jpeg.filter_insertAt plain 1 block, ?_, kept, ?_, records.perm perm⟩
      · rw [Jpeg.exifIndex?_insertAt plain 1 (by omega), Option.getD_some]
      · rw [contentOf, Jpeg.exifBlock?_insertAt plain 1 block]
        exact content
    · simp at again

theorem Holding.plan (holding : Holding image original entries bytes) {new : List Tiff.Field}
    {set : List Entry} (newRecords : Records new set) (canonicalSet : Canonical set) {result : Plan}
    (planned : plan bytes new = .ok result) :
    (result = .unchanged ∧ entries ++ set = []) ∨
      ∃ fields block, result = .segments (Jpeg.insertAt 1 (.ofBlock block) original) ∧
        Records fields (entries ++ set) ∧ Tiff.blockBytes? .big fields none = some block ∧
        Jpeg.latestPlace ≤ original.length := by
  have found {segments : List Jpeg.Segment} (read : Jpeg.read bytes = .ok segments) :=
    holding.segments parsed noExif canonical read
  cases result with
  | unchanged =>
      obtain ⟨segments, read, nothing⟩ := plan_eq_unchanged_iff.mp planned
      obtain ⟨-, -, fields, content, records⟩ := found read
      have both := records.merged newRecords canonicalSet.writable
      rw [fieldsAfter, content] at nothing
      have none : merged fields new = [] := by
        refine List.eq_nil_iff_forall_not_mem.mpr fun field member => ?_
        simpa [both.chain field member] using List.any_eq_false.mp nothing field member
      rw [none] at both
      exact .inl ⟨rfl, eq_nil_of_records both (canonical.append canonicalSet)⟩
  | segments placed =>
      obtain ⟨segments, block, read, encoded, located⟩ := plan_eq_segments_iff.mp planned
      obtain ⟨others, place, fields, content, records⟩ := found read
      obtain ⟨index, bound, indexIs, placedIs⟩ := Jpeg.withExif?_eq_some located
      have both := records.merged newRecords canonicalSet.writable
      simp only [newBlock?, fieldsAfter, content] at encoded
      refine .inr ⟨merged fields new, block, ?_, both, encoded, ?_⟩
      · rw [placedIs, indexIs, place, others]
        rfl
      · rw [← others]
        refine Nat.le_of_not_lt fun few => ?_
        rw [Jpeg.withExif?_eq_none_iff.mpr few] at located
        simp at located

theorem Holding.save (holding : Holding image original entries bytes) {set : List Entry}
    (canonicalSet : Canonical set) {backups : Bool} {path : Path} {tree after : FileTree}
    (read : tree.read path = .ok bytes) {saved : Saved}
    (succeeded : save backups path set tree = (.ok saved, after)) :
    ∃ now, after.read path = .ok now ∧ Holding image original (entries ++ set) now := by
  have outcome := save_outcome backups path set tree
  have newRecords := records_ofEntries canonicalSet.writable
  rw [succeeded] at outcome
  cases outcome with
  | idle again planned _ =>
      obtain rfl := Except.ok.inj (read.symm.trans again)
      rcases holding.plan parsed noExif canonical newRecords canonicalSet planned with
        ⟨-, nothing⟩ | ⟨_, _, same, -⟩
      · refine ⟨bytes, read, ?_⟩
        obtain ⟨rfl, rfl⟩ := List.append_eq_nil_iff.mp nothing
        exact holding
      · simp at same
  | written again planned _ stored =>
      obtain rfl := Except.ok.inj (read.symm.trans again)
      rcases holding.plan parsed noExif canonical newRecords canonicalSet planned with
        ⟨same, -⟩ | ⟨fields, block, same, records, encoded, many⟩
      · simp at same
      · obtain rfl := Plan.segments.inj same
        obtain ⟨content, output, put⟩ := writeSegments_eq_ok_iff.mp stored
        obtain ⟨short, written⟩ := Jpeg.write?_eq_some_iff.mp output
        refine ⟨content, FileTree.read_write put, .inr ⟨block, many, ⟨fields, records, encoded⟩, ?_,
          written⟩⟩
        exact short (.ofBlock block) (List.mem_append_right _ (List.mem_cons_self ..))

/-- The image is read if its data were kept, and shows what it holds if the scan gets to the block. -/
theorem Rewritten.read_eq {block : Bytes} (rewritten : Rewritten original entries block bytes)
    (whole : HasWholePosition entries) :
    read bytes =
      if Jpeg.HasScan original then
        .ok (if Jpeg.scanMinimum ≤ bytes.length ∧ Jpeg.IsPassable original then
          ⟨listing entries, false⟩ else .empty)
      else .error .truncated := by
  have plain := isExif_eq_false noExif
  have many : 2 ≤ original.length := Nat.le_trans (by decide) rewritten.many
  have start := Jpeg.parsed_of_read parsed
  have front := start.plain_of_lt many
  have nonempty : original ≠ [] := List.ne_nil_of_length_pos (by omega)
  have inserted := Jpeg.parsed_insertAt start front rewritten.short
  obtain ⟨fields, exifAt, gpsAt, records, laid⟩ := rewritten.laid canonical
  have again := Jpeg.read_startBytes_append inserted
  have scanned := Jpeg.scan?_startBytes_append inserted
  rw [← rewritten.written] at again scanned
  rw [Jpeg.firstBlock?_insertAt front plain (Tiff.ne_nil_of_header? laid.header)] at scanned
  simp only [Jpeg.isPassableTo_one_iff nonempty] at scanned
  simp only [Jpeg.hasScan_insertAt_iff] at again
  have held := Jpeg.exifBlock?_insertAt plain 1 block
  by_cases hasScan : Jpeg.HasScan original
  · rw [if_pos hasScan] at again ⊢
    by_cases seen : Jpeg.scanMinimum ≤ bytes.length ∧ Jpeg.IsPassable original
    · rw [if_neg (Nat.not_lt.mpr seen.1), if_pos seen.2] at scanned
      rw [if_pos seen]
      exact read_written canonical records again held scanned laid whole
    · have unseen : Jpeg.scan? bytes = none := by
        rw [scanned]
        split
        · rfl
        · rename_i long
          exact if_neg fun passable => seen ⟨Nat.le_of_not_lt long, passable⟩
      rw [if_neg seen]
      simp [read, survey, again, held, unseen, Except.map]
  · rw [if_neg hasScan] at again ⊢
    simp [read, survey, again, Except.map]

end

end PhotoTags.Image
