import PhotoTags.Proofs.Image.Merging

/-!
Which fields an image is written with. Among the fields about the image itself, a tag that some
attribute of the set can be written for has one field, from the last such attribute; at every other
place the fields are those that were there before, in their order. No attribute reaches the fields
about the thumbnail. The block that is laid out from these fields is the one that a save leaves in
the image.
-/

namespace PhotoTags.Tiff

def fieldsAt (chain : Nat) (directory : Directory) (id : Nat) (fields : List Field) : List Field :=
  fields.filter (·.place = (chain, directory, id))

section

variable {chain id : Nat} {directory : Directory} {fields : List Field}

theorem mem_fieldsAt {field : Field} : field ∈ fieldsAt chain directory id fields ↔
    field ∈ fields ∧ field.chain = chain ∧ field.directory = directory ∧ field.id = id := by
  simp [fieldsAt, Field.place]

theorem fieldsAt_append (behind : List Field) : fieldsAt chain directory id (fields ++ behind) =
    fieldsAt chain directory id fields ++ fieldsAt chain directory id behind :=
  List.filter_append ..

theorem fieldsAt_filter {keep : Field → Bool}
    (kept : ∀ field ∈ fields, field.chain = chain → field.directory = directory → field.id = id →
      keep field = true) :
    fieldsAt chain directory id (fields.filter keep) = fieldsAt chain directory id fields := by
  rw [fieldsAt, fieldsAt, List.filter_filter]
  refine List.filter_congr fun field member => ?_
  rw [Bool.and_eq_left_iff_imp, decide_eq_true_eq, Field.place, Prod.mk.injEq, Prod.mk.injEq]
  exact fun place => kept field member place.1 place.2.1 place.2.2

theorem fieldsAt_eq_nil (absent : ∀ field ∈ fields, field.chain = chain →
    field.directory = directory → field.id ≠ id) : fieldsAt chain directory id fields = [] := by
  rw [List.eq_nil_iff_forall_not_mem]
  intro field member
  obtain ⟨listed, onChain, inDirectory, sameId⟩ := mem_fieldsAt.mp member
  exact absent field listed onChain inDirectory sameId

end

end PhotoTags.Tiff

namespace PhotoTags.Image

open Attributes (lastValue?)
open Tiff (fieldsAt mem_fieldsAt)

def IsConvertible (entry : Entry) : Prop :=
  ∃ tag ∈ Tag.table, tag.name = entry.1 ∧ (tag.format.value? entry.2).isSome = true

instance (entry : Entry) : Decidable (IsConvertible entry) :=
  inferInstanceAs (Decidable (∃ tag ∈ Tag.table, _))

theorem isSome_field?_iff (entry : Entry) : (field? entry).isSome = true ↔ IsConvertible entry := by
  simp only [Option.isSome_iff_exists, field?_eq_some_iff, IsConvertible]
  constructor
  · rintro ⟨field, tag, listed, named, value, read, -⟩
    exact ⟨tag, listed, named, value, read⟩
  · rintro ⟨tag, listed, named, value, read⟩
    exact ⟨_, tag, listed, named, value, read, rfl⟩

theorem convertible_eq (entries : List Entry) :
    convertible entries = entries.filter (IsConvertible ·) := by
  refine List.filter_congr fun entry _ => ?_
  rw [Bool.eq_iff_iff, isSome_field?_iff, decide_eq_true_eq]

theorem names_ofEntries (entries : List Entry) :
    (Selection.ofEntries entries).written = (entries.filter (IsConvertible ·)).map (·.1) ∧
      (Selection.ofEntries entries).skipped = (entries.filter (¬ IsConvertible ·)).map (·.1) := by
  induction entries using List.reverseRecOn with
  | nil => exact ⟨rfl, rfl⟩
  | append_singleton entries entry ih =>
      rw [ofEntries_append_singleton, List.filter_append, List.filter_append, List.map_append,
        List.map_append, ← ih.1, ← ih.2]
      have convertible := isSome_field?_iff entry
      cases made : field? entry with
      | none =>
          rw [made] at convertible
          simp [Selection.add, made, mt convertible.mpr]
      | some field =>
          rw [made] at convertible
          simp [Selection.add, made, convertible.mp]

theorem chain_fields_ofEntries (entries : List Entry) :
    ∀ field ∈ (Selection.ofEntries entries).fields, field.chain = 0 :=
  (records_convertible entries).chain

/-- At a place where there are new fields the old ones about the image go; everywhere else they
stay. -/
theorem fieldsAt_merged {new : List Tiff.Field} (about : ∀ field ∈ new, field.chain = 0)
    (old : List Tiff.Field) (chain : Nat) (directory : Tiff.Directory) (id : Nat) :
    fieldsAt chain directory id (merged old new) =
      if fieldsAt chain directory id new = [] then fieldsAt chain directory id old
      else fieldsAt chain directory id new := by
  have replaced {field : Tiff.Field} (onChain : field.chain = chain)
      (inDirectory : field.directory = directory) (sameId : field.id = id) :
      (field.chain = 0 && new.any (sameTag field)) = true ↔
        fieldsAt chain directory id new ≠ [] := by
    rw [Bool.and_eq_true, decide_eq_true_eq, List.any_eq_true, ne_eq,
      List.eq_nil_iff_forall_not_mem, not_forall]
    simp only [not_not, sameTag, Bool.and_eq_true, decide_eq_true_eq, mem_fieldsAt, onChain, inDirectory,
      sameId]
    constructor
    · rintro ⟨first, other, member, otherDirectory, otherId⟩
      exact ⟨other, member, (about other member).trans first.symm, otherDirectory.symm, otherId.symm⟩
    · rintro ⟨other, member, otherChain, otherDirectory, otherId⟩
      exact ⟨otherChain.symm.trans (about other member), other, member, otherDirectory.symm,
        otherId.symm⟩
  rw [merged, Tiff.fieldsAt_append]
  split
  · rename_i nothing
    rw [nothing, List.append_nil]
    refine Tiff.fieldsAt_filter fun field _ onChain inDirectory sameId => ?_
    rw [Bool.not_eq_true', ← Bool.not_eq_true, replaced onChain inDirectory sameId]
    exact not_not_intro nothing
  · rename_i something
    have gone : fieldsAt chain directory id
        (old.filter fun field => !(field.chain = 0 && new.any (sameTag field))) = [] := by
      refine Tiff.fieldsAt_eq_nil fun field member onChain inDirectory sameId => ?_
      have goes := (replaced onChain inDirectory sameId).mpr something
      have stays := (List.mem_filter.mp member).2
      rw [goes] at stays
      simp at stays
    rw [gone, List.nil_append]

theorem Records.fieldsAt_tag {fields : List Tiff.Field} {entries : List Entry}
    (records : Records fields entries) {tag : Tag} (listed : tag ∈ Tag.table) :
    fieldsAt 0 (directoryOf tag.group) tag.id fields = (fieldIn? entries tag).toList := by
  have same : ∀ field, field ∈ fieldsAt 0 (directoryOf tag.group) tag.id fields ↔
      fieldIn? entries tag = some field := by
    intro field
    rw [mem_fieldsAt, records.members]
    constructor
    · rintro ⟨⟨other, otherListed, found⟩, -, inDirectory, sameId⟩
      obtain rfl := IsOf.eq_tag listed otherListed ⟨inDirectory, sameId⟩ (isOf_of_fieldIn? found).1
      exact found
    · intro found
      obtain ⟨isOf, first⟩ := isOf_of_fieldIn? found
      exact ⟨⟨tag, listed, found⟩, first, isOf⟩
  cases found : fieldIn? entries tag with
  | none =>
      rw [Option.toList_none, List.eq_nil_iff_forall_not_mem]
      exact fun field member => by simpa [found] using (same field).mp member
  | some field =>
      rw [Option.toList_some, ← List.perm_singleton]
      refine (List.perm_ext_iff_of_nodup (records.nodup.filter _) (List.nodup_singleton _)).mpr ?_
      intro other
      rw [← fieldsAt, same, found, Option.some.injEq, List.mem_singleton, eq_comm]

theorem Records.fieldsAt_eq_nil {fields : List Tiff.Field} {entries : List Entry}
    (records : Records fields entries) {directory : Tiff.Directory} {id : Nat}
    (absent : ∀ tag ∈ Tag.table, directoryOf tag.group = directory → tag.id = id →
      fieldIn? entries tag = none) (chain : Nat) : fieldsAt chain directory id fields = [] := by
  refine Tiff.fieldsAt_eq_nil fun field member _ inDirectory sameId => ?_
  obtain ⟨tag, listed, found⟩ := (records.members field).mp member
  obtain ⟨isOf, -⟩ := isOf_of_fieldIn? found
  have none := absent tag listed (isOf.1.symm.trans inDirectory) (isOf.2.symm.trans sameId)
  simp [none] at found

theorem exists_last_convertible {entries : List Entry} {tag : Tag} (listed : tag ∈ Tag.table)
    (named : tag.name ∈ (convertible entries).map (·.1)) :
    ∃ text value, lastValue? (convertible entries) tag.name = some text ∧
      tag.format.value? text = some value ∧
      fieldIn? (convertible entries) tag = some (tag.fieldOf value) := by
  obtain ⟨text, last⟩ := exists_lastValue? named
  obtain ⟨field, made⟩ := writable_convertible entries _ (Attributes.mem_of_lastValue? last)
  obtain ⟨other, otherListed, sameName, value, read, -⟩ := field?_eq_some_iff.mp made
  obtain rfl := Tag.eq_of_name other otherListed tag listed sameName
  exact ⟨text, value, last, read, fieldIn?_eq_some_iff.mpr ⟨text, last, value, read, rfl⟩⟩

theorem fieldIn?_eq_none {entries : List Entry} {tag : Tag}
    (unnamed : tag.name ∉ entries.map (·.1)) : fieldIn? entries tag = none := by
  rw [fieldIn?, lastValue?_eq_none unnamed, Option.bind_none]

section

variable {segments : List Jpeg.Segment} {entries : List Entry}

/-- A tag with a convertible text has one field, from the last such text. -/
theorem fieldsAt_fieldsAfter_of_named {tag : Tag} (listed : tag ∈ Tag.table)
    (named : tag.name ∈ (convertible entries).map (·.1)) :
    ∃ text value, lastValue? (convertible entries) tag.name = some text ∧
      tag.format.value? text = some value ∧
      fieldsAt 0 (directoryOf tag.group) tag.id
        (fieldsAfter segments (Selection.ofEntries entries).fields) = [tag.fieldOf value] := by
  obtain ⟨text, value, last, read, found⟩ := exists_last_convertible listed named
  refine ⟨text, value, last, read, ?_⟩
  rw [fieldsAfter, fieldsAt_merged (chain_fields_ofEntries entries),
    (records_convertible entries).fieldsAt_tag listed, found, Option.toList_some,
    if_neg (List.cons_ne_nil _ _)]

theorem fieldsAt_fieldsAfter_of_unnamed {directory : Tiff.Directory} {id : Nat}
    (unnamed : ∀ tag ∈ Tag.table, directoryOf tag.group = directory → tag.id = id →
      tag.name ∉ (convertible entries).map (·.1)) :
    fieldsAt 0 directory id (fieldsAfter segments (Selection.ofEntries entries).fields) =
      fieldsAt 0 directory id (fieldsIn segments) := by
  have nothing := (records_convertible entries).fieldsAt_eq_nil
    (fun tag listed inDirectory sameId => fieldIn?_eq_none (unnamed tag listed inDirectory sameId)) 0
  rw [fieldsAfter, fieldsAt_merged (chain_fields_ofEntries entries), if_pos nothing,
    fields_contentOf]
  refine Tiff.fieldsAt_filter fun field _ first _ _ => ?_
  simp [first]

/-- New fields are about the image itself, so that they leave those about the thumbnail alone. -/
theorem filter_chain_fieldsAfter :
    (fieldsAfter segments (Selection.ofEntries entries).fields).filter (·.chain ≠ 0) =
      if (contentOf segments).thumbnail.isSome then (fieldsIn segments).filter (·.chain ≠ 0)
      else [] := by
  have fresh : (Selection.ofEntries entries).fields.filter (·.chain ≠ 0) = [] := by
    rw [List.filter_eq_nil_iff]
    exact fun field member => by simp [chain_fields_ofEntries entries field member]
  have stays : ((contentOf segments).fields.filter fun field => !(field.chain = 0 &&
      (Selection.ofEntries entries).fields.any (sameTag field))).filter (·.chain ≠ 0) =
      (contentOf segments).fields.filter (·.chain ≠ 0) := by
    rw [List.filter_filter]
    refine List.filter_congr fun field _ => ?_
    by_cases first : field.chain = 0 <;> simp [first]
  rw [fieldsAfter, merged, List.filter_append, fresh, List.append_nil, stays, fields_contentOf,
    List.filter_filter]
  cases (contentOf segments).thumbnail.isSome <;> simp

end

theorem names_of_save {backups : Bool} {path : Path} {entries : List Entry} {tree after : FileTree}
    {saved : Saved} (succeeded : save backups path entries tree = (.ok saved, after)) :
    saved.written = (entries.filter (IsConvertible ·)).map (·.1) ∧
      saved.skipped = (entries.filter (¬ IsConvertible ·)).map (·.1) := by
  obtain ⟨_, -, ⟨-, -, rfl⟩ | ⟨_, _, -, -, -, rfl⟩⟩ := save_eq_ok_iff.mp succeeded
  · exact names_ofEntries entries
  · exact names_ofEntries entries

/-- A save of an image in which some field is about the image itself leaves the image with the new
block at the path; any other leaves the files as they were. -/
theorem saved_of_read {bytes : Bytes} {segments : List Jpeg.Segment} {backups : Bool} {path : Path}
    {entries : List Entry} {tree after : FileTree} {saved : Saved}
    (parsed : Jpeg.read bytes = .ok segments) (read : tree.read path = .ok bytes)
    (succeeded : save backups path entries tree = (.ok saved, after)) :
    let new := (Selection.ofEntries entries).fields
    if (fieldsAfter segments new).any (·.chain = 0) then
      ∃ block placed content, newBlock? segments new = some block ∧
        Jpeg.withExif? segments block = some placed ∧ Jpeg.write? placed = some content ∧
        after.read path = .ok content
    else after = tree := by
  obtain ⟨found, again, outcome⟩ := save_eq_ok_iff.mp succeeded
  obtain rfl := Except.ok.inj (read.symm.trans again)
  rcases outcome with ⟨unchanged, same, -⟩ | ⟨placed, middle, planned, -, stored, -⟩
  · obtain ⟨others, alike, nothing⟩ := plan_eq_unchanged_iff.mp unchanged
    obtain rfl := Except.ok.inj (parsed.symm.trans alike)
    simpa [nothing] using same
  · obtain ⟨others, block, alike, encoded, located⟩ := plan_eq_segments_iff.mp planned
    obtain rfl := Except.ok.inj (parsed.symm.trans alike)
    obtain ⟨content, encodes, written⟩ := writeSegments_eq_ok_iff.mp stored
    rw [if_pos (any_chain_of_blockBytes? encoded)]
    exact ⟨block, placed, content, encoded, located, encodes, FileTree.read_write written⟩

/-- The fields that an image is written with. Each attribute is named in one of two lists, in the
order of the set. The fields handed to the layout are those that the attributes have values for,
one for each tag, and the earlier ones of all other tags, while those about a thumbnail are kept
with the thumbnail and go without it. If one of them is about the image itself, the block laid out
from them is the one in the image that a save leaves; if none is, the image stays. -/
theorem written_fields_override (bytes : Bytes) (segments : List Jpeg.Segment)
    (entries : List Entry) (parsed : Jpeg.read bytes = .ok segments) :
    let usable := entries.filter (IsConvertible ·)
    let handed := fieldsAfter segments (Selection.ofEntries entries).fields
    let block? := Tiff.blockBytes? (contentOf segments).order handed (contentOf segments).thumbnail
    (∀ backups path tree saved after, save backups path entries tree = (.ok saved, after) →
      saved.written = usable.map (·.1) ∧
      saved.skipped = (entries.filter (¬ IsConvertible ·)).map (·.1)) ∧
    plan bytes (Selection.ofEntries entries).fields =
      (if handed.any (·.chain = 0) then
        match block? with
        | none => .error (.error .unencodable)
        | some block =>
            match Jpeg.withExif? segments block with
            | none => .error .abort
            | some placed => .ok (.segments placed)
      else .ok .unchanged) ∧
    (∀ backups path tree saved after, tree.read path = .ok bytes →
      save backups path entries tree = (.ok saved, after) →
      if handed.any (·.chain = 0) then
        ∃ block placed content, block? = some block ∧
          Jpeg.withExif? segments block = some placed ∧ Jpeg.write? placed = some content ∧
          after.read path = .ok content
      else after = tree) ∧
    (∀ tag ∈ Tag.table, tag.name ∈ usable.map (·.1) →
      ∃ text value, lastValue? usable tag.name = some text ∧ tag.format.value? text = some value ∧
        fieldsAt 0 (directoryOf tag.group) tag.id handed = [tag.fieldOf value]) ∧
    (∀ directory id, (∀ tag ∈ Tag.table, directoryOf tag.group = directory → tag.id = id →
        tag.name ∉ usable.map (·.1)) →
      fieldsAt 0 directory id handed = fieldsAt 0 directory id (fieldsIn segments)) ∧
    handed.filter (·.chain ≠ 0) =
      if (contentOf segments).thumbnail.isSome then (fieldsIn segments).filter (·.chain ≠ 0)
      else [] := by
  intro usable handed block?
  have convertibles : usable = convertible entries := (convertible_eq entries).symm
  refine ⟨fun _ _ _ _ _ succeeded => names_of_save succeeded, plan_of_read _ parsed,
    fun _ _ _ _ _ read succeeded => saved_of_read parsed read succeeded, ?given, ?kept,
    filter_chain_fieldsAfter⟩
  case given =>
    rw [convertibles]
    exact fun tag listed named => fieldsAt_fieldsAfter_of_named listed named
  case kept =>
    rw [convertibles]
    exact fun directory id unnamed => fieldsAt_fieldsAfter_of_unnamed unnamed

theorem written_fields_override_orientation :
    let marked := fun block : Bytes => [⟨0xE0, [], []⟩, Jpeg.Segment.ofBlock block, ⟨0xFE, [], []⟩,
      ⟨0xDA, [1], [9, 9]⟩]
    let segments := marked [0x4D, 0x4D, 0, 0x2A, 0, 0, 0, 8, 0, 1, 1, 0x0F, 0, 2, 0, 0, 0, 4, 0x46, 0x4F,
      0x4F, 0, 0, 0, 0, 0]
    let image : Bytes := [0xFF, 0xD8, 0xFF, 0xE0, 0, 2, 0xFF, 0xE1, 0, 0x22, 0x45, 0x78, 0x69, 0x66, 0, 0,
      0x4D, 0x4D, 0, 0x2A, 0, 0, 0, 8, 0, 1, 1, 0x0F, 0, 2, 0, 0, 0, 4, 0x46, 0x4F, 0x4F, 0, 0, 0, 0, 0,
      0xFF, 0xFE, 0, 2, 0xFF, 0xDA, 0, 3, 1, 9, 9]
    let tree : FileTree := { nodes := [(["a.jpg"], .file image)] }
    let entries : List Entry :=
      [("Orientation", "3"), ("Lens", "50"), ("Orientation", "6"), ("Orientation", "six")]
    let new := (Selection.ofEntries entries).fields
    let handed := fieldsAfter segments new
    let answer := save false ⟨"a.jpg"⟩ entries tree
    let block : Bytes := [0x4D, 0x4D, 0, 0x2A, 0, 0, 0, 8, 0, 2, 1, 0x0F, 0, 2, 0, 0, 0, 4, 0x46, 0x4F,
      0x4F, 0, 1, 0x12, 0, 3, 0, 0, 0, 1, 0, 6, 0, 0, 0, 0, 0, 0]
    Jpeg.read image = .ok segments ∧
      fieldsAt 0 .main 0x0112 handed = [⟨.main, 0x0112, 0, ⟨.short, [6]⟩⟩] ∧
      fieldsAt 0 .main 0x010F handed = [⟨.main, 0x010F, 0, .text ['F', 'O', 'O']⟩] ∧
      plan image new = .ok (.segments (marked block)) ∧
      answer.1 = .ok ⟨["Orientation", "Orientation"], ["Lens", "Orientation"], none⟩ ∧
      (answer.2.read ⟨"a.jpg"⟩).toOption = Jpeg.write? (marked block) := by
  intro marked segments image tree entries new handed answer block
  have parsed : Jpeg.read image = .ok segments := by decide
  obtain ⟨-, planned, stored, given, kept, -⟩ :=
    written_fields_override image segments entries parsed
  have about : handed.any (·.chain = 0) = true := by decide +kernel
  have encoded : Tiff.blockBytes? (contentOf segments).order handed
      (contentOf segments).thumbnail = some block := by decide +kernel
  have located : Jpeg.withExif? segments block = some (marked block) := by decide +kernel
  have answered : answer.1 = .ok ⟨["Orientation", "Orientation"], ["Lens", "Orientation"], none⟩ := by
    decide +kernel
  have succeeded : answer = (.ok ⟨["Orientation", "Orientation"], ["Lens", "Orientation"], none⟩,
      answer.2) := by
    rw [← answered]
  refine ⟨parsed, ?orientation, ?make, ?plan, answered, ?save⟩
  case orientation =>
    obtain ⟨text, value, last, read, single⟩ :=
      given ⟨"Orientation", 0x0112, .main, .short⟩ (by decide) (by decide +kernel)
    obtain rfl : "6" = text := by
      have known : lastValue? (entries.filter (IsConvertible ·)) "Orientation" = some "6" := by
        decide +kernel
      exact Option.some.inj (known.symm.trans last)
    obtain rfl : ⟨.short, [6]⟩ = value := by
      have known : Tag.Format.short.value? "6" = some ⟨.short, [6]⟩ := by decide +kernel
      exact Option.some.inj (known.symm.trans read)
    exact single
  case make =>
    rw [kept .main 0x010F (by decide +kernel)]
    decide +kernel
  case plan =>
    rw [if_pos about, encoded] at planned
    simpa only [located] using planned
  case save =>
    have left := stored false ⟨"a.jpg"⟩ tree _ answer.2 rfl succeeded
    rw [if_pos about] at left
    obtain ⟨other, placed, content, again, found, encodes, read⟩ := left
    obtain rfl := Option.some.inj (encoded.symm.trans again)
    obtain rfl := Option.some.inj (located.symm.trans found)
    rw [read, encodes]
    rfl

end PhotoTags.Image
