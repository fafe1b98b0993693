import PhotoTags.Image.Read
import PhotoTags.Proofs.Attributes.History
import PhotoTags.Proofs.Image.Fields

/-!
The attributes that are read from a written block: the last text of each tag, in the order of the
table. A position is read as a whole, from the four entries of its directory.
-/

namespace PhotoTags.Tag

def latitudeRef : Tag := ⟨"GPSLatitudeRef", 0x0001, .gps, .text⟩

def latitude : Tag := ⟨"GPSLatitude", 0x0002, .gps, .rational⟩

def longitudeRef : Tag := ⟨"GPSLongitudeRef", 0x0003, .gps, .text⟩

def longitude : Tag := ⟨"GPSLongitude", 0x0004, .gps, .rational⟩

def position : List Tag :=
  [latitudeRef, latitude, longitudeRef, longitude]

theorem table_eq : table = table.filter (·.group ≠ .gps) ++ position := by
  decide

theorem mem_position_iff {tag : Tag} : tag ∈ position ↔ tag ∈ table ∧ tag.group = .gps := by
  have own : ∀ tag ∈ position, tag ∈ table ∧ tag.group = .gps := by decide
  have all : ∀ tag ∈ table, tag.group = .gps → tag ∈ position := by decide
  exact ⟨own tag, fun both => all tag both.1 both.2⟩

theorem directoryOf_eq_gps_iff {group : Group} :
    Image.directoryOf group = .gps ↔ group = .gps := by
  cases group <;> decide

theorem Holds.reference {tag : Tag} {text : List Char} {value : Tiff.Value}
    (holds : tag.Holds text value) (format : tag.format = .text) (group : tag.group = .gps)
    (order : Tiff.ByteOrder) :
    ∃ c, text = [c] ∧ (tag.fieldOf value).datum? order = some (.text [c]) := by
  obtain ⟨datum, read, tells⟩ := holds.tells order
  cases tells with
  | plain other _ => exact absurd group other
  | reference _ _ => exact ⟨_, rfl, read⟩
  | coordinate rational _ => simp [format] at rational

theorem Holds.coordinate {tag : Tag} {text : List Char} {value : Tiff.Value}
    (holds : tag.Holds text value) (format : tag.format = .rational) (group : tag.group = .gps)
    (order : Tiff.ByteOrder) :
    ∃ coordinate, text = Image.coordinateText coordinate ∧ (tag.fieldOf value).datum? order =
      some (.ratios false [coordinate.degrees, coordinate.minutes, coordinate.seconds]) := by
  obtain ⟨datum, read, tells⟩ := holds.tells order
  cases tells with
  | plain other _ => exact absurd group other
  | reference isText _ => simp [format] at isText
  | coordinate _ _ => exact ⟨_, rfl, read⟩

theorem Holds.plain {tag : Tag} {text : List Char} {value : Tiff.Value}
    (holds : tag.Holds text value) (group : tag.group ≠ .gps) (order : Tiff.ByteOrder) :
    ((tag.fieldOf value).datum? order).bind (fun datum => plain? datum.shown) = some text := by
  obtain ⟨datum, read, tells⟩ := holds.tells order
  rw [read, Option.bind_some]
  cases tells with
  | plain _ shown => exact shown
  | reference _ isGps => exact absurd isGps group
  | coordinate _ isGps => exact absurd isGps group

end PhotoTags.Tag

namespace PhotoTags.Image

open Attributes (lastValue?)

def entryIn? (entries : List Entry) (tag : Tag) : Option Entry :=
  (lastValue? entries tag.name).map fun text => (tag.name, text)

def listing (entries : List Entry) : List Entry :=
  Tag.table.filterMap (entryIn? entries)

def HasWholePosition (entries : List Entry) : Prop :=
  ∀ tag ∈ Tag.table, tag.group = .gps → ∀ other ∈ Tag.table, other.group = .gps →
    tag.name ∈ entries.map (·.1) → other.name ∈ entries.map (·.1)

instance (entries : List Entry) : Decidable (HasWholePosition entries) :=
  inferInstanceAs (Decidable (∀ tag ∈ Tag.table, tag.group = .gps → ∀ other ∈ Tag.table, _))

theorem HasWholePosition.flatten {sets : List (List Entry)}
    (whole : ∀ set ∈ sets, HasWholePosition set) : HasWholePosition sets.flatten := by
  intro tag listed group other otherListed otherGroup named
  rw [List.map_flatten, List.mem_flatten] at named ⊢
  obtain ⟨_, image, inside⟩ := named
  obtain ⟨set, setListed, rfl⟩ := List.mem_map.mp image
  exact ⟨_, image, whole set setListed tag listed group other otherListed otherGroup inside⟩

theorem exists_lastValue? {entries : List Entry} {name : String}
    (named : name ∈ entries.map (·.1)) : ∃ text, lastValue? entries name = some text :=
  Option.isSome_iff_exists.mp ((Attributes.lastValue?_isSome_iff entries name).mpr named)

theorem lastValue?_eq_none {entries : List Entry} {name : String}
    (unnamed : name ∉ entries.map (·.1)) : lastValue? entries name = none := by
  rwa [← Attributes.lastValue?_isSome_iff, Option.not_isSome_iff_eq_none] at unnamed

theorem mem_listing_iff {entries : List Entry} {entry : Entry} :
    entry ∈ listing entries ↔
      lastValue? entries entry.1 = some entry.2 ∧ ∃ tag ∈ Tag.table, tag.name = entry.1 := by
  unfold listing
  rw [List.mem_filterMap]
  constructor
  · rintro ⟨tag, listed, found⟩
    obtain ⟨text, last, rfl⟩ := Option.map_eq_some_iff.mp found
    exact ⟨last, tag, listed, rfl⟩
  · rintro ⟨last, tag, listed, named⟩
    refine ⟨tag, listed, ?_⟩
    rw [entryIn?, named, last]
    rfl

theorem nodup_listing (entries : List Entry) : ((listing entries).map (·.1)).Nodup := by
  have names : Tag.table.Pairwise fun tag other => tag.name ≠ other.name := by decide
  refine List.pairwise_map.mpr (List.Pairwise.filterMap _ ?_ names)
  rintro tag other differ entry found otherEntry otherFound
  obtain ⟨_, -, rfl⟩ := Option.map_eq_some_iff.mp found
  obtain ⟨_, -, rfl⟩ := Option.map_eq_some_iff.mp otherFound
  exact differ

theorem lastValue?_eq_some_iff {entries : List Entry} (apart : (entries.map (·.1)).Nodup)
    {name value : String} : lastValue? entries name = some value ↔ (name, value) ∈ entries := by
  refine ⟨Attributes.mem_of_lastValue?, fun member => ?_⟩
  obtain ⟨other, last⟩ := exists_lastValue? (List.mem_map_of_mem (f := (·.1)) member)
  have same := List.inj_on_of_nodup_map apart (Attributes.mem_of_lastValue? last) member rfl
  rw [last, (Prod.mk.inj same).2]

theorem Canonical.lastValue?_listing {entries : List Entry} (canonical : Canonical entries)
    (name : String) : lastValue? (listing entries) name = lastValue? entries name := by
  refine Option.ext fun value => ?_
  rw [lastValue?_eq_some_iff (nodup_listing entries), mem_listing_iff]
  refine and_iff_left_of_imp fun last => ?_
  obtain ⟨tag, listed, named, -⟩ := canonical _ (Attributes.mem_of_lastValue? last)
  exact ⟨tag, listed, named⟩

theorem name_of_table : ∀ tag ∈ Tag.table,
    tag.name ≠ Exchange.thumbnailName ∧ '=' ∉ tag.name.toList := by
  decide

theorem name_of_listing {entries : List Entry} :
    ∀ entry ∈ listing entries, entry.1 ≠ Exchange.thumbnailName ∧ '=' ∉ entry.1.toList := by
  intro entry member
  obtain ⟨-, tag, listed, named⟩ := mem_listing_iff.mp member
  rw [← named]
  exact name_of_table tag listed

theorem Canonical.written {entries : List Entry} (canonical : Canonical entries) {tag : Tag}
    (listed : tag ∈ Tag.table) (named : tag.name ∈ entries.map (·.1)) :
    ∃ text value, entryIn? entries tag = some (tag.name, String.ofList text) ∧
      fieldIn? entries tag = some (tag.fieldOf value) ∧ tag.Holds text value := by
  obtain ⟨text, last⟩ := exists_lastValue? named
  obtain ⟨value, holds⟩ := canonical.holds listed last
  refine ⟨text.toList, value, ?_, ?_, holds⟩
  · rw [entryIn?, last, String.ofList_toList, Option.map_some]
  · exact (canonical.fieldIn?_eq_some_iff listed).mpr ⟨text, value, last, holds, rfl⟩

section

variable {order : Tiff.ByteOrder} {fields : List Tiff.Field} {entries : List Entry}
  (records : Records fields entries)

include records

theorem directory_gps_iff {field : Tiff.Field} :
    field ∈ fields.filter (·.directory = .gps) ↔
      ∃ tag ∈ Tag.position, fieldIn? entries tag = some field := by
  rw [List.mem_filter, decide_eq_true_eq]
  constructor
  · rintro ⟨member, own⟩
    obtain ⟨tag, listed, value, found, rfl⟩ := records.exists_fieldOf member
    exact ⟨tag, Tag.mem_position_iff.mpr ⟨listed, Tag.directoryOf_eq_gps_iff.mp own⟩, found⟩
  · rintro ⟨tag, member, found⟩
    obtain ⟨listed, group⟩ := Tag.mem_position_iff.mp member
    refine ⟨(records.members field).mpr ⟨tag, listed, found⟩, ?_⟩
    obtain ⟨_, _, -, -, rfl⟩ := fieldIn?_eq_some found
    exact Tag.directoryOf_eq_gps_iff.mpr group

theorem positionItems_eq {latitudeRef latitude longitudeRef longitude : Tiff.Value}
    (first : fieldIn? entries Tag.latitudeRef = some (Tag.latitudeRef.fieldOf latitudeRef))
    (second : fieldIn? entries Tag.latitude = some (Tag.latitude.fieldOf latitude))
    (third : fieldIn? entries Tag.longitudeRef = some (Tag.longitudeRef.fieldOf longitudeRef))
    (fourth : fieldIn? entries Tag.longitude = some (Tag.longitude.fieldOf longitude)) :
    Tiff.Item.sorted (Tiff.itemsIn order .gps fields) =
      [Tag.latitudeRef.fieldOf latitudeRef, Tag.latitude.fieldOf latitude,
        Tag.longitudeRef.fieldOf longitudeRef, Tag.longitude.fieldOf longitude].map
          (Tiff.Item.ofField order) := by
  refine Tiff.Item.sorted_eq_of_perm (List.Perm.map _ ?_) ?_
  · refine (List.perm_ext_iff_of_nodup (records.nodup.filter _) ?_).mpr fun field => ?_
    · simp [Tag.fieldOf, Tag.latitudeRef, Tag.latitude, Tag.longitudeRef, Tag.longitude]
    · rw [directory_gps_iff records]
      simp [Tag.position, first, second, third, fourth, eq_comm]
  · simp [Tiff.Item.ofField, Tag.fieldOf, Tag.latitudeRef, Tag.latitude, Tag.longitudeRef,
      Tag.longitude]

end

section

variable {order : Tiff.ByteOrder} {block : Bytes} {fields : List Tiff.Field} {gpsAt : Nat}
  {walk : Tiff.Survey} {entries : List Entry}
  (canonical : Canonical entries) (records : Records fields entries)

include canonical records

theorem tagEntries_eq (surveyed : Tiff.Surveyed order block fields gpsAt walk) {tag : Tag}
    (listed : tag ∈ Tag.table) (group : tag.group ≠ .gps) :
    tagEntries walk tag = (entryIn? entries tag).toList := by
  obtain ⟨_, noPointer, -, -, -⟩ := Tag.sound_of_table tag listed
  unfold tagEntries entryIn?
  cases last : lastValue? entries tag.name with
  | none =>
      have absent : ∀ field ∈ fields, field.id ≠ tag.id := by
        intro field member sameId
        obtain ⟨other, otherListed, value, found, rfl⟩ := records.exists_fieldOf member
        obtain rfl := Tag.eq_of_id other otherListed tag listed sameId
        simp [fieldIn?, last] at found
      simp [Tiff.find?_unwritten surveyed noPointer absent]
  | some text =>
      obtain ⟨value, holds⟩ := canonical.holds listed last
      have member : tag.fieldOf value ∈ fields := (records.members _).mpr ⟨tag, listed,
        (canonical.fieldIn?_eq_some_iff listed).mpr ⟨text, value, last, holds, rfl⟩⟩
      have found := Tiff.find?_written surveyed (canonical.sound records) member
        fun other otherMember sameId => records.eq_of_id otherMember member sameId
      rw [show tag.id = (tag.fieldOf value).id from rfl, found, holds.plain group order]
      simp

theorem tagEntries_table (surveyed : Tiff.Surveyed order block fields gpsAt walk) :
    (Tag.table.filter (·.group ≠ .gps)).flatMap (tagEntries walk) =
      (Tag.table.filter (·.group ≠ .gps)).filterMap (entryIn? entries) := by
  rw [List.filterMap_eq_flatMap_toList]
  refine List.flatMap_congr fun tag member => ?_
  obtain ⟨listed, group⟩ := List.mem_filter.mp member
  exact tagEntries_eq canonical records surveyed listed (by simpa using group)

theorem locationEntries_eq {walk : Tiff.Survey} {exifAt gpsAt : Nat}
    (surveyed : Tiff.Surveyed order block fields gpsAt walk)
    (laid : Tiff.Laid order block fields exifAt gpsAt) (whole : HasWholePosition entries) :
    (match walk.location? block with
      | some location => locationEntries location
      | none => []) =
      Tag.position.filterMap (entryIn? entries) := by
  have sound := canonical.sound records
  -- Since the position is whole, one of its tags stands for all four.
  by_cases named : Tag.latitudeRef.name ∈ entries.map (·.1)
  · have all : ∀ tag ∈ Tag.position,
        ∃ text value, entryIn? entries tag = some (tag.name, String.ofList text) ∧
          fieldIn? entries tag = some (tag.fieldOf value) ∧ tag.Holds text value := by
      intro tag member
      obtain ⟨listed, group⟩ := Tag.mem_position_iff.mp member
      exact canonical.written listed (whole _ (by decide) rfl tag listed group named)
    simp only [Tag.position, List.forall_mem_cons] at all
    obtain ⟨⟨_, _, last1, field1, holds1⟩, ⟨_, _, last2, field2, holds2⟩,
      ⟨_, _, last3, field3, holds3⟩, ⟨_, _, last4, field4, holds4⟩, -⟩ := all
    obtain ⟨northOrSouth, rfl, datum1⟩ := holds1.reference rfl rfl order
    obtain ⟨latitude, rfl, datum2⟩ := holds2.coordinate rfl rfl order
    obtain ⟨eastOrWest, rfl, datum3⟩ := holds3.reference rfl rfl order
    obtain ⟨longitude, rfl, datum4⟩ := holds4.coordinate rfl rfl order
    have items : Tiff.Item.sorted (Tiff.itemsIn order .gps fields) = _ :=
      positionItems_eq records field1 field2 field3 field4
    have filled : Tiff.itemsIn order .gps fields ≠ [] := by
      intro nothing
      rw [nothing] at items
      simp [Tiff.Item.sorted] at items
    have found : walk.location? block =
        some ⟨some northOrSouth, latitude, some eastOrWest, longitude⟩ := by
      rw [Tiff.location?_written surveyed laid sound filled, items]
      simp only [List.map_cons, List.map_nil, Tiff.outcome_ofField, datum1, datum2, datum3, datum4]
      rfl
    rw [found]
    simp only [Tag.position, List.filterMap_cons, List.filterMap_nil, last1, last2, last3, last4]
    rfl
  · have none : ∀ tag ∈ Tag.position, lastValue? entries tag.name = none := by
      intro tag member
      obtain ⟨listed, group⟩ := Tag.mem_position_iff.mp member
      exact lastValue?_eq_none fun there => named (whole tag listed group _ (by decide) rfl there)
    have empty : Tiff.itemsIn order .gps fields = [] := by
      rw [Tiff.itemsIn, List.map_eq_nil_iff, List.eq_nil_iff_forall_not_mem]
      intro field member
      obtain ⟨tag, own, found⟩ := (directory_gps_iff records).mp member
      simp [fieldIn?, none tag own] at found
    rw [Tiff.location?_unwritten surveyed sound empty, eq_comm, List.filterMap_eq_nil_iff]
    intro tag member
    rw [entryIn?, none tag member, Option.map_none]

/-- An image in which the scan finds a written block is read as the last text of each tag. -/
theorem read_written {bytes : Bytes} {segments : List Jpeg.Segment}
    (parsed : Jpeg.read bytes = .ok segments) (held : Jpeg.exifBlock? segments = some block)
    (scanned : Jpeg.scan? bytes = some block) {exifAt : Nat}
    (laid : Tiff.Laid order block fields exifAt gpsAt) (whole : HasWholePosition entries) :
    read bytes = .ok ⟨listing entries, false⟩ := by
  have noZone : ∀ field ∈ fields, field.id ∉ Tiff.zoneIds := by
    intro field member
    obtain ⟨tag, listed, value, -, rfl⟩ := records.exists_fieldOf member
    exact (Tag.sound_of_table tag listed).2.2.2.2
  obtain ⟨walk, walked, surveyed⟩ := Tiff.survey?_laid laid (canonical.sound records) noZone
  have entriesEq : Survey.entries ⟨block, block, walk⟩ = listing entries := by
    calc Survey.entries ⟨block, block, walk⟩
      _ = (Tag.table.filter (·.group ≠ .gps)).filterMap (entryIn? entries) ++
            Tag.position.filterMap (entryIn? entries) :=
          congrArg₂ (· ++ ·) (tagEntries_table canonical records surveyed)
            (locationEntries_eq canonical records surveyed laid whole)
      _ = listing entries := by rw [← List.filterMap_append, ← Tag.table_eq, listing]
  simp only [read, survey, parsed, held, scanned, walked, Option.map_some, Except.map, entriesEq,
    Survey.thumbnail?, Tiff.thumbnail?_written surveyed, Option.isSome_none]

end

end PhotoTags.Image
