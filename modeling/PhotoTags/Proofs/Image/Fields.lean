import PhotoTags.Proofs.Attributes.Order
import PhotoTags.Proofs.Tag.Canonical
import PhotoTags.Proofs.Tiff.Found

/-!
The fields that attributes become. A tag's last text counts, within one set of attributes and from
one set to the next, so that the fields of an image hold what all sets written one after another
say together.
-/

namespace PhotoTags.Attributes

theorem lastValue?_append_list (first second : List Entry) (name : String) :
    lastValue? (first ++ second) name = (lastValue? second name).or (lastValue? first name) := by
  simp [lastValue?, List.reverse_append, List.find?_append, Option.map_or]

theorem mem_of_lastValue? {entries : List Entry} {name value : String}
    (found : lastValue? entries name = some value) : (name, value) ∈ entries := by
  obtain ⟨entry, last, rfl⟩ := Option.map_eq_some_iff.mp found
  have named : entry.1 = name := by simpa using List.find?_some last
  rw [← named]
  exact List.mem_reverse.mp (List.mem_of_find?_eq_some last)

end PhotoTags.Attributes

namespace PhotoTags.Tag

theorem eq_of_name : ∀ tag ∈ table, ∀ other ∈ table, tag.name = other.name → tag = other := by
  decide

theorem eq_of_id : ∀ tag ∈ table, ∀ other ∈ table, tag.id = other.id → tag = other := by
  decide

theorem lookup?_name : ∀ tag ∈ table, lookup? tag.name = some tag := by
  decide

theorem sound_of_table :
    ∀ tag ∈ table, (0 < tag.id ∧ tag.id < 65536) ∧ Tiff.isPointerId tag.id = false ∧
      (Image.directoryOf tag.group ≠ .interop ∧ tag.id ≠ Tiff.interopPointer) ∧
      tag.id ∉ Tiff.layoutIds ∧ tag.id ∉ Tiff.zoneIds := by
  decide

end PhotoTags.Tag

namespace PhotoTags.Image

open Attributes (lastValue?)

def Writable (entries : List Entry) : Prop :=
  ∀ entry ∈ entries, ∃ field, field? entry = some field

def fieldIn? (entries : List Entry) (tag : Tag) : Option Tiff.Field :=
  (lastValue? entries tag.name).bind fun text => (tag.format.value? text).map tag.fieldOf

structure Records (fields : List Tiff.Field) (entries : List Entry) : Prop where
  nodup : fields.Nodup
  members : ∀ field, field ∈ fields ↔ ∃ tag ∈ Tag.table, fieldIn? entries tag = some field

theorem field?_eq_some_iff {entry : Entry} {field : Tiff.Field} :
    field? entry = some field ↔
      ∃ tag ∈ Tag.table, tag.name = entry.1 ∧
        ∃ value, tag.format.value? entry.2 = some value ∧ tag.fieldOf value = field := by
  unfold field?
  constructor
  · intro found
    cases looked : Tag.lookup? entry.1 with
    | none => simp [looked] at found
    | some tag =>
        rw [looked] at found
        exact ⟨tag, List.mem_of_find?_eq_some looked, by simpa using List.find?_some looked,
          Option.map_eq_some_iff.mp found⟩
  · rintro ⟨tag, listed, named, value, read, rfl⟩
    rw [← named, Tag.lookup?_name tag listed]
    simp [read, Tag.fieldOf]

theorem fieldIn?_eq_some {entries : List Entry} {tag : Tag} {field : Tiff.Field}
    (found : fieldIn? entries tag = some field) :
    ∃ text value, lastValue? entries tag.name = some text ∧
      tag.format.value? text = some value ∧ field = tag.fieldOf value := by
  obtain ⟨text, last, read⟩ := Option.bind_eq_some_iff.mp found
  obtain ⟨value, written, rfl⟩ := Option.map_eq_some_iff.mp read
  exact ⟨text, value, last, written, rfl⟩

theorem Records.exists_fieldOf {fields : List Tiff.Field} {entries : List Entry}
    (records : Records fields entries) {field : Tiff.Field} (member : field ∈ fields) :
    ∃ tag ∈ Tag.table, ∃ value, fieldIn? entries tag = some (tag.fieldOf value) ∧
      field = tag.fieldOf value := by
  obtain ⟨tag, listed, found⟩ := (records.members field).mp member
  obtain ⟨_, value, -, -, rfl⟩ := fieldIn?_eq_some found
  exact ⟨tag, listed, value, found, rfl⟩

theorem exists_fieldIn?_singleton_iff {entry : Entry} {field : Tiff.Field} :
    (∃ tag ∈ Tag.table, fieldIn? [entry] tag = some field) ↔ field? entry = some field := by
  have last (name : String) : lastValue? [entry] name = if entry.1 = name then some entry.2 else none :=
    Attributes.lastValue?_append [] entry name
  rw [field?_eq_some_iff]
  refine exists_congr fun tag => and_congr_right fun listed => ?_
  unfold fieldIn?
  rw [last]
  by_cases named : entry.1 = tag.name
  · simp [named]
  · simp [named, Ne.symm named]

theorem Writable.fieldIn?_append {second : List Entry} (writable : Writable second)
    (first : List Entry) {tag : Tag} (listed : tag ∈ Tag.table) :
    fieldIn? (first ++ second) tag = (fieldIn? second tag).or (fieldIn? first tag) := by
  unfold fieldIn?
  rw [Attributes.lastValue?_append_list]
  cases last : lastValue? second tag.name with
  | none => simp
  | some text =>
      obtain ⟨field, found⟩ := writable _ (Attributes.mem_of_lastValue? last)
      obtain ⟨other, otherListed, named, value, read, -⟩ := field?_eq_some_iff.mp found
      obtain rfl := Tag.eq_of_name other otherListed tag listed named
      simp [read]

theorem sameTag_fieldOf {tag other : Tag} (listed : tag ∈ Tag.table) (otherListed : other ∈ Tag.table)
    (value otherValue : Tiff.Value) :
    sameTag (tag.fieldOf value) (other.fieldOf otherValue) = true ↔ tag = other := by
  simp only [sameTag, Bool.and_eq_true, decide_eq_true_eq]
  constructor
  · rintro ⟨-, sameId⟩
    exact Tag.eq_of_id tag listed other otherListed sameId
  · rintro rfl
    exact ⟨rfl, rfl⟩

theorem Records.replaced {old new : List Tiff.Field} {first second : List Entry}
    (oldRecords : Records old first) (newRecords : Records new second)
    (writable : Writable second) :
    Records (old.filter (fun field => !new.any (sameTag field)) ++ new) (first ++ second) := by
  have replaces {tag : Tag} (listed : tag ∈ Tag.table) (value : Tiff.Value) :
      new.any (sameTag (tag.fieldOf value)) = true ↔ ∃ field, fieldIn? second tag = some field := by
    rw [List.any_eq_true]
    constructor
    · rintro ⟨field, member, same⟩
      obtain ⟨other, otherListed, otherValue, found, rfl⟩ := newRecords.exists_fieldOf member
      obtain rfl := (sameTag_fieldOf listed otherListed _ _).mp same
      exact ⟨_, found⟩
    · rintro ⟨field, found⟩
      obtain ⟨_, _, -, -, same⟩ := fieldIn?_eq_some found
      refine ⟨field, (newRecords.members field).mpr ⟨tag, listed, found⟩, ?_⟩
      rw [same]
      exact (sameTag_fieldOf listed listed _ _).mpr rfl
  constructor
  · refine List.Nodup.append (oldRecords.nodup.filter _) newRecords.nodup ?_
    intro field kept added
    obtain ⟨tag, listed, value, found, rfl⟩ := newRecords.exists_fieldOf added
    have untouched := (List.mem_filter.mp kept).2
    rw [(replaces listed value).mpr ⟨_, found⟩] at untouched
    simp at untouched
  · intro field
    rw [List.mem_append, List.mem_filter, oldRecords.members, newRecords.members]
    constructor
    · rintro (⟨⟨tag, listed, found⟩, untouched⟩ | ⟨tag, listed, found⟩)
      · obtain ⟨_, value, -, -, rfl⟩ := fieldIn?_eq_some found
        have none : fieldIn? second tag = none := by
          rw [Option.eq_none_iff_forall_ne_some]
          intro other there
          rw [(replaces listed value).mpr ⟨other, there⟩] at untouched
          simp at untouched
        exact ⟨tag, listed, by rw [writable.fieldIn?_append first listed, none, found]; rfl⟩
      · exact ⟨tag, listed, by rw [writable.fieldIn?_append first listed, found]; rfl⟩
    · rintro ⟨tag, listed, found⟩
      rw [writable.fieldIn?_append first listed] at found
      cases there : fieldIn? second tag with
      | some other =>
          rw [there, Option.some_or] at found
          exact .inr ⟨tag, listed, there.trans found⟩
      | none =>
          rw [there, Option.none_or] at found
          refine .inl ⟨⟨tag, listed, found⟩, ?_⟩
          obtain ⟨_, value, -, -, rfl⟩ := fieldIn?_eq_some found
          have untouched := mt (replaces listed value).mp (by simp [there])
          simpa using untouched

theorem records_nil : Records [] [] :=
  ⟨List.nodup_nil, fun field => by simp [fieldIn?, lastValue?]⟩

theorem records_singleton {entry : Entry} {field : Tiff.Field}
    (written : field? entry = some field) : Records [field] [entry] := by
  refine ⟨List.nodup_singleton field, fun other => ?_⟩
  rw [exists_fieldIn?_singleton_iff, written, List.mem_singleton, Option.some.injEq, eq_comm]

theorem fields_add {entry : Entry} {field : Tiff.Field} (written : field? entry = some field)
    (selection : Selection) :
    (selection.add entry).fields =
      selection.fields.filter (fun old => !([field].any (sameTag old))) ++ [field] := by
  simp [Selection.add, written]

theorem ofEntries_append_singleton (entries : List Entry) (entry : Entry) :
    Selection.ofEntries (entries ++ [entry]) = (Selection.ofEntries entries).add entry := by
  simp [Selection.ofEntries]

theorem records_ofEntries {entries : List Entry} (writable : Writable entries) :
    Records (Selection.ofEntries entries).fields entries := by
  -- From the right, as a later text of a tag takes the place of an earlier one.
  induction entries using List.reverseRecOn with
  | nil => exact records_nil
  | append_singleton entries entry ih =>
      obtain ⟨field, written⟩ := writable entry (by simp)
      rw [ofEntries_append_singleton, fields_add written]
      refine (ih fun other member => writable other (by simp [member])).replaced
        (records_singleton written) fun other member => ?_
      rw [List.mem_singleton.mp member]
      exact ⟨field, written⟩

theorem Records.chain {fields : List Tiff.Field} {entries : List Entry}
    (records : Records fields entries) : ∀ field ∈ fields, field.chain = 0 := by
  intro field member
  obtain ⟨tag, -, value, -, rfl⟩ := records.exists_fieldOf member
  rfl

theorem Records.merged {old new : List Tiff.Field} {first second : List Entry}
    (oldRecords : Records old first) (newRecords : Records new second)
    (writable : Writable second) : Records (merged old new) (first ++ second) := by
  have same : Image.merged old new =
      old.filter (fun field => !new.any (sameTag field)) ++ new := by
    unfold Image.merged
    congr 1
    refine List.filter_congr fun field member => ?_
    simp [oldRecords.chain field member]
  rw [same]
  exact oldRecords.replaced newRecords writable

theorem Records.eq_of_id {fields : List Tiff.Field} {entries : List Entry}
    (records : Records fields entries) {field other : Tiff.Field} (member : field ∈ fields)
    (otherMember : other ∈ fields) (sameId : field.id = other.id) : field = other := by
  obtain ⟨tag, listed, value, found, rfl⟩ := records.exists_fieldOf member
  obtain ⟨otherTag, otherListed, otherValue, otherFound, rfl⟩ := records.exists_fieldOf otherMember
  obtain rfl := Tag.eq_of_id tag listed otherTag otherListed sameId
  exact Option.some.inj (found.symm.trans otherFound)

theorem Records.perm {fields kept : List Tiff.Field} {entries : List Entry}
    (records : Records fields entries) (perm : kept.Perm fields) : Records kept entries :=
  ⟨perm.nodup_iff.mpr records.nodup, fun field => by rw [perm.mem_iff, records.members]⟩

def Canonical (entries : List Entry) : Prop :=
  ∀ entry ∈ entries, ∃ tag ∈ Tag.table, tag.name = entry.1 ∧ tag.Canonical entry.2.toList

namespace Canonical

theorem append {first second : List Entry} (firstCanonical : Canonical first)
    (secondCanonical : Canonical second) : Canonical (first ++ second) := by
  intro entry member
  exact (List.mem_append.mp member).elim (firstCanonical entry) (secondCanonical entry)

theorem flatten {sets : List (List Entry)} (canonical : ∀ set ∈ sets, Canonical set) :
    Canonical sets.flatten := by
  intro entry member
  obtain ⟨set, listed, inside⟩ := List.mem_flatten.mp member
  exact canonical set listed entry inside

variable {entries : List Entry} (canonical : Canonical entries)

include canonical

theorem holds {tag : Tag} (listed : tag ∈ Tag.table) {text : String}
    (last : lastValue? entries tag.name = some text) : ∃ value, tag.Holds text.toList value := by
  obtain ⟨other, otherListed, named, shown⟩ := canonical _ (Attributes.mem_of_lastValue? last)
  obtain rfl := Tag.eq_of_name other otherListed tag listed named
  exact shown.holds listed

theorem writable : Writable entries := by
  intro entry member
  obtain ⟨tag, listed, named, shown⟩ := canonical entry member
  obtain ⟨value, holds⟩ := shown.holds listed
  have written := holds.written
  rw [String.ofList_toList] at written
  exact ⟨_, field?_eq_some_iff.mpr ⟨tag, listed, named, value, written, rfl⟩⟩

theorem fieldIn?_eq_some_iff {tag : Tag} (listed : tag ∈ Tag.table) {field : Tiff.Field} :
    fieldIn? entries tag = some field ↔ ∃ text value, lastValue? entries tag.name = some text ∧
      tag.Holds text.toList value ∧ field = tag.fieldOf value := by
  constructor
  · intro found
    obtain ⟨text, value, last, read, same⟩ := fieldIn?_eq_some found
    obtain ⟨other, holds⟩ := canonical.holds listed last
    have written := holds.written
    rw [String.ofList_toList, read] at written
    obtain rfl := Option.some.inj written
    exact ⟨text, value, last, holds, same⟩
  · rintro ⟨text, value, last, holds, rfl⟩
    have written := holds.written
    rw [String.ofList_toList] at written
    simp [fieldIn?, last, written]

theorem sound {fields : List Tiff.Field} (records : Records fields entries) :
    ∀ field ∈ fields, field.Sound := by
  intro field member
  obtain ⟨tag, listed, found⟩ := (records.members field).mp member
  obtain ⟨text, value, -, holds, rfl⟩ := (canonical.fieldIn?_eq_some_iff listed).mp found
  obtain ⟨range, noPointer, noInterop, noLayout, -⟩ := Tag.sound_of_table tag listed
  refine ⟨rfl, range, noPointer, noInterop, ?_, holds.sound⟩
  unfold Tiff.isWritable
  split
  · simpa [Tag.fieldOf] using noLayout
  · simpa [Tag.fieldOf] using noInterop.2
  · rfl

end Canonical

end PhotoTags.Image
