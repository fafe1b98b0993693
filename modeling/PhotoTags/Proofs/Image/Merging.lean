import PhotoTags.Proofs.Image.Listing
import PhotoTags.Proofs.Image.Segments
import PhotoTags.Proofs.Tag.Stored
import PhotoTags.Proofs.Tiff.Stored

/-!
The fields of an image before and after attributes are written into it. A tag with an attribute that
can be written has the field of the last such attribute, and no other about the image itself. The
fields of all other tags stay, except that those about a thumbnail go if the image has none.
-/

namespace PhotoTags.Image

open Attributes (lastValue?)

def convertible (entries : List Entry) : List Entry :=
  entries.filter fun entry => (field? entry).isSome

theorem writable_convertible (entries : List Entry) : Writable (convertible entries) := by
  intro entry member
  exact Option.isSome_iff_exists.mp (List.mem_filter.mp member).2

theorem fields_ofEntries (entries : List Entry) :
    (Selection.ofEntries entries).fields = (Selection.ofEntries (convertible entries)).fields := by
  induction entries using List.reverseRecOn with
  | nil => rfl
  | append_singleton entries entry ih =>
      rw [convertible, List.filter_append, ofEntries_append_singleton]
      cases written : field? entry with
      | none => simp [Selection.add, written, ih, convertible]
      | some field =>
          have one : [entry].filter (fun entry => (field? entry).isSome) = [entry] := by
            simp [written]
          rw [one, ofEntries_append_singleton, fields_add written, fields_add written, ih,
            convertible]

theorem records_convertible (entries : List Entry) :
    Records (Selection.ofEntries entries).fields (convertible entries) := by
  rw [fields_ofEntries]
  exact records_ofEntries (writable_convertible entries)

theorem mem_fields_ofEntries {entries : List Entry} {field : Tiff.Field} :
    field ∈ (Selection.ofEntries entries).fields ↔
      ∃ tag ∈ Tag.table, fieldIn? (convertible entries) tag = some field :=
  (records_convertible entries).members field

theorem fieldIn?_eq_some_iff {entries : List Entry} {tag : Tag} {field : Tiff.Field} :
    fieldIn? entries tag = some field ↔ ∃ text, lastValue? entries tag.name = some text ∧
      ∃ value, tag.format.value? text = some value ∧ tag.fieldOf value = field := by
  rw [fieldIn?, Option.bind_eq_some_iff]
  simp only [Option.map_eq_some_iff]

theorem fieldIn?_convertible {entries : List Entry} (apart : (entries.map (·.1)).Nodup) {tag : Tag}
    (listed : tag ∈ Tag.table) : fieldIn? (convertible entries) tag = fieldIn? entries tag := by
  have fewer : ((convertible entries).map (·.1)).Nodup :=
    apart.sublist (List.filter_sublist.map _)
  refine Option.ext fun field => ?_
  rw [fieldIn?_eq_some_iff, fieldIn?_eq_some_iff]
  refine exists_congr fun text => ?_
  rw [lastValue?_eq_some_iff fewer, lastValue?_eq_some_iff apart, convertible, List.mem_filter]
  constructor
  · rintro ⟨⟨member, -⟩, written⟩
    exact ⟨member, written⟩
  · rintro ⟨member, value, read, same⟩
    have made : field? (tag.name, text) = some field :=
      field?_eq_some_iff.mpr ⟨tag, listed, rfl, value, read, same⟩
    exact ⟨⟨member, by simp [made]⟩, value, read, same⟩

theorem stored_of_fieldIn? {entries : List Entry} {tag : Tag} (listed : tag ∈ Tag.table)
    {field : Tiff.Field} (found : fieldIn? entries tag = some field) : field.Stored := by
  obtain ⟨text, -, value, read, rfl⟩ := fieldIn?_eq_some_iff.mp found
  exact ⟨(Tag.sound_of_table tag listed).1.2, Tag.stored_value? read⟩

def IsOf (tag : Tag) (field : Tiff.Field) : Prop :=
  field.directory = directoryOf tag.group ∧ field.id = tag.id

theorem isOf_of_fieldIn? {entries : List Entry} {tag : Tag} {field : Tiff.Field}
    (found : fieldIn? entries tag = some field) : IsOf tag field ∧ field.chain = 0 := by
  obtain ⟨text, -, value, -, rfl⟩ := fieldIn?_eq_some_iff.mp found
  exact ⟨⟨rfl, rfl⟩, rfl⟩

theorem IsOf.eq_tag {tag other : Tag} (listed : tag ∈ Tag.table) (otherListed : other ∈ Tag.table)
    {field : Tiff.Field} (isOf : IsOf tag field) (otherIsOf : IsOf other field) : tag = other :=
  Tag.eq_of_id tag listed other otherListed (isOf.2.symm.trans otherIsOf.2)

theorem IsOf.writable {tag : Tag} (listed : tag ∈ Tag.table) {field : Tiff.Field}
    (isOf : IsOf tag field) : Tiff.isWritable field = true := by
  obtain ⟨-, -, noInterop, noLayout, -⟩ := Tag.sound_of_table tag listed
  unfold Tiff.isWritable
  split
  · simpa [isOf.2] using noLayout
  · simpa [isOf.2] using noInterop.2
  · rfl

theorem IsOf.not_mem_thumbnailFields {tag : Tag} (listed : tag ∈ Tag.table) {field : Tiff.Field}
    (isOf : IsOf tag field) (thumbnail : Option Bytes) (offset : Nat) :
    field ∉ Tiff.thumbnailFields thumbnail offset := by
  have writable := isOf.writable listed
  intro member
  unfold Tiff.thumbnailFields at member
  split at member
  · simp at member
  · simp only [List.mem_cons, List.not_mem_nil, or_false] at member
    rcases member with rfl | rfl <;> exact absurd writable (by simp [Tiff.isWritable, Tiff.layoutIds])

def fieldsIn (segments : List Jpeg.Segment) : List Tiff.Field :=
  match Jpeg.exifBlock? segments with
  | some block => Tiff.fieldsOf block
  | none => []

theorem sound_of_mem_fieldsIn {segments : List Jpeg.Segment} :
    ∀ field ∈ fieldsIn segments, field.Stored ∧ (field.chain = 0 ∨ field.chain = 1) := by
  intro field member
  unfold fieldsIn at member
  split at member
  · exact Tiff.sound_of_mem_fieldsOf field member
  · simp at member

theorem fields_contentOf (segments : List Jpeg.Segment) :
    (contentOf segments).fields = (fieldsIn segments).filter fun field =>
      field.chain = 0 || (contentOf segments).thumbnail.isSome := by
  unfold contentOf fieldsIn
  cases Jpeg.exifBlock? segments with
  | none => rfl
  | some block => exact Tiff.Content.fields_ofBlock block

theorem mem_fields_contentOf {segments : List Jpeg.Segment} {field : Tiff.Field} :
    field ∈ (contentOf segments).fields ↔ field ∈ fieldsIn segments ∧
      (field.chain = 0 ∨ (contentOf segments).thumbnail.isSome = true) := by
  rw [fields_contentOf, List.mem_filter]
  simp

theorem mem_merged {old new : List Tiff.Field} {field : Tiff.Field} :
    field ∈ merged old new ↔
      (field ∈ old ∧ ¬ (field.chain = 0 ∧ ∃ other ∈ new, sameTag field other = true)) ∨
        field ∈ new := by
  by_cases first : field.chain = 0 <;> simp [merged, first]

theorem IsOf.replaced_iff {tag : Tag} (listed : tag ∈ Tag.table) {field : Tiff.Field}
    (isOf : IsOf tag field) (entries : List Entry) :
    (∃ other ∈ (Selection.ofEntries entries).fields, sameTag field other = true) ↔
      ∃ other, fieldIn? (convertible entries) tag = some other := by
  constructor
  · rintro ⟨other, member, same⟩
    obtain ⟨otherTag, otherListed, found⟩ := mem_fields_ofEntries.mp member
    have otherIsOf := (isOf_of_fieldIn? found).1
    simp only [sameTag, Bool.and_eq_true, decide_eq_true_eq] at same
    obtain rfl := isOf.eq_tag listed otherListed
      ⟨same.1.trans otherIsOf.1, same.2.trans otherIsOf.2⟩
    exact ⟨other, found⟩
  · rintro ⟨other, found⟩
    have otherIsOf := (isOf_of_fieldIn? found).1
    refine ⟨other, mem_fields_ofEntries.mpr ⟨tag, listed, found⟩, ?_⟩
    simp [sameTag, isOf.1, isOf.2, otherIsOf.1, otherIsOf.2]

theorem mem_fieldsAfter_iff {segments : List Jpeg.Segment} {entries : List Entry} {tag : Tag}
    (listed : tag ∈ Tag.table) {field : Tiff.Field} (isOf : IsOf tag field) :
    field ∈ fieldsAfter segments (Selection.ofEntries entries).fields ↔
      fieldIn? (convertible entries) tag = some field ∨ field ∈ fieldsIn segments ∧
        if field.chain = 0 then fieldIn? (convertible entries) tag = none
        else (contentOf segments).thumbnail.isSome = true := by
  rw [fieldsAfter, mem_merged, isOf.replaced_iff listed, mem_fields_contentOf, mem_fields_ofEntries]
  have own : (∃ other ∈ Tag.table, fieldIn? (convertible entries) other = some field) ↔
      fieldIn? (convertible entries) tag = some field := by
    constructor
    · rintro ⟨other, otherListed, found⟩
      obtain rfl := isOf.eq_tag listed otherListed (isOf_of_fieldIn? found).1
      exact found
    · exact fun found => ⟨tag, listed, found⟩
  have absent : (¬ ∃ other, fieldIn? (convertible entries) tag = some other) ↔
      fieldIn? (convertible entries) tag = none := by
    rw [Option.eq_none_iff_forall_ne_some, not_exists]
  rw [own]
  by_cases first : field.chain = 0
  · simp only [first, true_and, true_or, and_true, absent, if_true]
    exact or_comm
  · simp only [first, false_and, not_false_eq_true, and_true, false_or, if_false]
    exact or_comm

theorem sound_of_mem_fieldsAfter {segments : List Jpeg.Segment} {entries : List Entry} :
    ∀ field ∈ fieldsAfter segments (Selection.ofEntries entries).fields,
      field.Stored ∧ (field.chain = 0 ∨ field.chain = 1) := by
  intro field member
  rcases mem_merged.mp member with ⟨old, -⟩ | new
  · exact sound_of_mem_fieldsIn field (mem_fields_contentOf.mp old).1
  · obtain ⟨tag, listed, found⟩ := mem_fields_ofEntries.mp new
    exact ⟨stored_of_fieldIn? listed found, .inl (isOf_of_fieldIn? found).2⟩

theorem mem_fieldsOf_newBlock {segments : List Jpeg.Segment} {entries : List Entry} {block : Bytes}
    (encoded : newBlock? segments (Selection.ofEntries entries).fields = some block)
    (short : block.length < 65536) {tag : Tag} (listed : tag ∈ Tag.table) {field : Tiff.Field}
    (isOf : IsOf tag field) :
    field ∈ Tiff.fieldsOf block ↔
      field ∈ fieldsAfter segments (Selection.ofEntries entries).fields := by
  have stored : ∀ field ∈ fieldsAfter segments (Selection.ofEntries entries).fields, field.Stored :=
    fun field member => (sound_of_mem_fieldsAfter field member).1
  obtain ⟨second, places, later, chained⟩ := Tiff.chained_of_blockBytes? stored encoded short
  rw [(chained.sameRuns_fieldsOf stored).mem_iff, List.mem_append, List.mem_append, Tiff.mem_linkOf,
    Tiff.mem_linkOf]
  constructor
  · rintro ((⟨member, -⟩ | ⟨member, -⟩) | number)
    · exact member
    · exact member
    · exact absurd number (isOf.not_mem_thumbnailFields listed _ _)
  · intro member
    have writable := isOf.writable listed
    rcases (sound_of_mem_fieldsAfter field member).2 with first | next
    · exact .inl (.inl ⟨member, first, writable⟩)
    · exact .inl (.inr ⟨member, next, writable⟩)

theorem fields_saved {backups : Bool} {path : Path} {entries : List Entry} {tree after : FileTree}
    {bytes : Bytes} {segments : List Jpeg.Segment} {saved : Saved}
    (read : tree.read path = .ok bytes) (parsed : Jpeg.read bytes = .ok segments)
    (succeeded : save backups path entries tree = (.ok saved, after))
    (changes : plan bytes (Selection.ofEntries entries).fields ≠ .ok .unchanged) :
    ∃ output, after.read path = .ok output ∧
      ((∃ again, Jpeg.read output = .ok again) ↔ Jpeg.HasScan segments) ∧
      ∀ again, Jpeg.read output = .ok again → ∀ tag ∈ Tag.table, ∀ field, IsOf tag field →
        (field ∈ fieldsIn again ↔
          fieldIn? (convertible entries) tag = some field ∨ field ∈ fieldsIn segments ∧
            if field.chain = 0 then fieldIn? (convertible entries) tag = none
            else (contentOf segments).thumbnail.isSome = true) := by
  obtain ⟨block, encoded, many, short, written⟩ := exists_written read parsed succeeded changes
  have result := Jpeg.read_insertAt_exifPlace (Jpeg.parsed_of_read parsed) many short
  have plain : ∀ segment ∈ segments.filter Jpeg.isOther, segment.isExif = false :=
    Jpeg.isExif_eq_false_of_isOther
  have blockShort : block.length < 65536 := by
    rw [List.length_append, Jpeg.maxContents] at short
    omega
  dsimp only at result
  refine ⟨_, written, ?_, ?_⟩
  · rw [result]
    split <;> simp_all
  · intro again same tag listed field isOf
    rw [result] at same
    split at same
    · obtain rfl := Except.ok.inj same
      rw [fieldsIn, Jpeg.exifBlock?_insertAt plain]
      exact (mem_fieldsOf_newBlock encoded blockShort listed isOf).trans
        (mem_fieldsAfter_iff listed isOf)
    · simp at same

end PhotoTags.Image
