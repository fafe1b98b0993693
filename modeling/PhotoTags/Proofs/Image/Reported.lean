import PhotoTags.Proofs.Image.Listing
import PhotoTags.Proofs.Tiff.Position

/-!
Which attributes an image is said to have, and whether the tags are in its Exif block. A reference is
reported only if there is an entry for it, as are all tags outside the position. Both coordinates are
reported with every position, though, whether or not the block has them.
-/

namespace PhotoTags.Image

def HoldsTag (bytes : Bytes) (name : String) : Prop :=
  ∃ tag ∈ Tag.table, tag.name = name ∧ ∃ block, Jpeg.scan? bytes = some block ∧
    if tag.group = .gps then Tiff.HasPositionField block tag.id else Tiff.HasField block tag.id

def unknownCoordinate : String := "0/0,0/0,0/0"

/-- A directory for the position is found, with an entry of a known number and no coordinate of too
few ratios. -/
def GivesPosition (bytes : Bytes) : Prop :=
  ∃ found items, survey bytes = .ok (some found) ∧
    found.walk.positionListing? found.scanned = some items ∧
    (∃ item ∈ items, Tiff.isKnownId item.1 = true) ∧
    ∀ item ∈ items, Tiff.Location.isCoordinateId item.1 = true → ¬ item.2.IsShort

theorem survey_eq_some {bytes : Bytes} {found : Survey} (surveyed : survey bytes = .ok (some found)) :
    Jpeg.scan? bytes = some found.scanned ∧ Tiff.survey? found.scanned = some found.walk := by
  unfold survey at surveyed
  split at surveyed
  · simp at surveyed
  · split at surveyed
    · rename_i block scanned _ scan
      obtain ⟨walk, walked, rfl⟩ := Option.map_eq_some_iff.mp (Except.ok.inj surveyed)
      exact ⟨scan, walked⟩
    · simp at surveyed

theorem read_eq_ok {bytes : Bytes} {findings : Findings} (read : read bytes = .ok findings) :
    (survey bytes = .ok none ∧ findings = .empty) ∨
      ∃ found, survey bytes = .ok (some found) ∧
        findings = ⟨found.entries, found.thumbnail?.isSome⟩ := by
  unfold Image.read at read
  cases surveyed : survey bytes with
  | error cause => simp [surveyed, Except.map] at read
  | ok result =>
      rw [surveyed] at read
      cases result with
      | none => exact .inl ⟨rfl, (Except.ok.inj read).symm⟩
      | some found => exact .inr ⟨found, rfl, (Except.ok.inj read).symm⟩

section

variable {bytes : Bytes} {found : Survey} (surveyed : survey bytes = .ok (some found))

include surveyed

theorem holdsTag_of_mem_tagEntries {tag : Tag} (listed : tag ∈ Tag.table) (group : tag.group ≠ .gps)
    {entry : Entry} (member : entry ∈ tagEntries found.walk tag) : HoldsTag bytes entry.1 := by
  obtain ⟨scan, walked⟩ := survey_eq_some surveyed
  unfold tagEntries at member
  split at member
  · rename_i text shown
    obtain ⟨value, looked, -⟩ := Option.bind_eq_some_iff.mp shown
    rw [List.mem_singleton.mp member]
    refine ⟨tag, listed, rfl, found.scanned, scan, ?_⟩
    rw [if_neg group]
    exact Tiff.hasField_of_find? walked looked
  · simp at member

theorem givesPosition_iff :
    GivesPosition bytes ↔ (found.walk.location? found.scanned).isSome = true := by
  rw [Tiff.location?_eq_bind]
  constructor
  · rintro ⟨other, items, same, listed, usable⟩
    obtain rfl := Option.some.inj (Except.ok.inj (surveyed.symm.trans same))
    rw [listed, Option.bind_some]
    exact (Tiff.Location.isSome_ofListing?_iff items).mpr usable
  · intro given
    cases listed : found.walk.positionListing? found.scanned with
    | none => simp [listed] at given
    | some items =>
        rw [listed, Option.bind_some] at given
        exact ⟨found, items, surveyed, listed, (Tiff.Location.isSome_ofListing?_iff items).mp given⟩

theorem holdsTag_of_gives {location : Tiff.Location}
    (located : found.walk.location? found.scanned = some location) {tag : Tag}
    (listed : tag ∈ Tag.table) (group : tag.group = .gps) (given : location.Gives tag.id) :
    HoldsTag bytes tag.name := by
  obtain ⟨scan, walked⟩ := survey_eq_some surveyed
  rw [Tiff.location?_eq_bind] at located
  obtain ⟨items, listing, made⟩ := Option.bind_eq_some_iff.mp located
  obtain ⟨item, member, same⟩ := Tiff.Location.exists_of_gives made given
  refine ⟨tag, listed, rfl, found.scanned, scan, ?_⟩
  rw [if_pos group, ← same]
  exact Tiff.hasPositionField_of_mem walked listing member

theorem holdsTag_of_mem_referenceEntries {location : Tiff.Location}
    (located : found.walk.location? found.scanned = some location) {tag : Tag}
    (listed : tag ∈ Tag.position) {reference : Option Char}
    (given : reference ≠ none → location.Gives tag.id) {entry : Entry}
    (member : entry ∈ referenceEntries tag.name reference) : HoldsTag bytes entry.1 := by
  cases reference with
  | none => simp [referenceEntries] at member
  | some character =>
      rw [referenceEntries, List.mem_singleton] at member
      rw [member]
      obtain ⟨inTable, group⟩ := Tag.mem_position_iff.mp listed
      exact holdsTag_of_gives surveyed located inTable group (given (by simp))

theorem holdsTag_of_coordinate {location : Tiff.Location}
    (located : found.walk.location? found.scanned = some location) {tag : Tag}
    (listed : tag ∈ Tag.position) {coordinate : Tiff.Coordinate}
    (given : coordinate ≠ .missing → location.Gives tag.id) :
    HoldsTag bytes tag.name ∨ String.ofList (coordinateText coordinate) = unknownCoordinate := by
  by_cases missing : coordinate = .missing
  · right
    rw [missing]
    decide
  · obtain ⟨inTable, group⟩ := Tag.mem_position_iff.mp listed
    exact .inl (holdsTag_of_gives surveyed located inTable group (given missing))

theorem holdsTag_of_mem_locationEntries {location : Tiff.Location}
    (located : found.walk.location? found.scanned = some location) {entry : Entry}
    (member : entry ∈ locationEntries location) :
    HoldsTag bytes entry.1 ∨
      entry.1 ∈ ["GPSLatitude", "GPSLongitude"] ∧ entry.2 = unknownCoordinate := by
  simp only [locationEntries, List.mem_append, List.mem_singleton] at member
  rcases member with ((latitudeRef | rfl) | longitudeRef) | rfl
  · apply Or.inl
    exact holdsTag_of_mem_referenceEntries surveyed located
      (show Tag.latitudeRef ∈ Tag.position by decide)
      (fun given => .inl ⟨rfl, given⟩) latitudeRef
  · apply (holdsTag_of_coordinate surveyed located
      (show Tag.latitude ∈ Tag.position by decide)
      fun given => .inr (.inl ⟨rfl, given⟩)).imp_right
    intro unknown
    exact ⟨List.mem_cons_self .., unknown⟩
  · apply Or.inl
    exact holdsTag_of_mem_referenceEntries surveyed located
      (show Tag.longitudeRef ∈ Tag.position by decide)
      (fun given => .inr (.inr (.inl ⟨rfl, given⟩))) longitudeRef
  · apply (holdsTag_of_coordinate surveyed located
      (show Tag.longitude ∈ Tag.position by decide)
      fun given => .inr (.inr (.inr ⟨rfl, given⟩))).imp_right
    intro unknown
    exact ⟨List.mem_cons_of_mem _ (List.mem_cons_self ..), unknown⟩

end

section

variable {bytes : Bytes} {findings : Findings} (read : read bytes = .ok findings)

include read

theorem reported_held :
    ∀ entry ∈ findings.entries, HoldsTag bytes entry.1 ∨
      entry.1 ∈ ["GPSLatitude", "GPSLongitude"] ∧ entry.2 = unknownCoordinate := by
  intro entry member
  rcases read_eq_ok read with ⟨_, rfl⟩ | ⟨found, surveyed, rfl⟩
  · simp [Findings.empty] at member
  · rcases List.mem_append.mp member with own | position
    · obtain ⟨tag, listed, shown⟩ := List.mem_flatMap.mp own
      obtain ⟨inTable, group⟩ := List.mem_filter.mp listed
      exact .inl (holdsTag_of_mem_tagEntries surveyed inTable (by simpa using group) shown)
    · split at position
      · rename_i location located
        exact holdsTag_of_mem_locationEntries surveyed located position
      · simp at position

theorem coordinate_reported_iff {name : String}
    (coordinate : name ∈ ["GPSLatitude", "GPSLongitude"]) :
    name ∈ findings.entries.map (·.1) ↔ GivesPosition bytes := by
  rcases read_eq_ok read with ⟨surveyed, rfl⟩ | ⟨found, surveyed, rfl⟩
  · constructor
    · intro member
      simp [Findings.empty] at member
    · rintro ⟨_, _, same, -⟩
      simp [surveyed] at same
  · rw [givesPosition_iff surveyed, Survey.entries, List.map_append, List.mem_append]
    constructor
    · rintro (own | position)
      · obtain ⟨entry, shown, rfl⟩ := List.mem_map.mp own
        obtain ⟨tag, listed, member⟩ := List.mem_flatMap.mp shown
        have noCoordinate : ∀ tag ∈ Tag.table.filter (·.group ≠ .gps),
            tag.name ∉ ["GPSLatitude", "GPSLongitude"] := by
          decide
        unfold tagEntries at member
        split at member
        · rw [List.mem_singleton.mp member] at coordinate
          exact absurd coordinate (noCoordinate tag listed)
        · simp at member
      · split at position
        · rename_i location located
          rw [located]
          rfl
        · simp at position
    · intro given
      obtain ⟨location, located⟩ := Option.isSome_iff_exists.mp given
      right
      rw [located]
      simp only [List.mem_cons, List.not_mem_nil, or_false] at coordinate
      rcases coordinate with rfl | rfl <;> simp [locationEntries]

/-- Whatever an image is said to have is a field of its block or a coordinate that is not known, and
the latter occurs exactly if the block gives a position without having both coordinates. -/
theorem reported_held_iff :
    (∀ entry ∈ findings.entries, HoldsTag bytes entry.1 ∨
      entry.1 ∈ ["GPSLatitude", "GPSLongitude"] ∧ entry.2 = unknownCoordinate) ∧
    ((∀ entry ∈ findings.entries, HoldsTag bytes entry.1) ↔
      (GivesPosition bytes → HoldsTag bytes "GPSLatitude" ∧ HoldsTag bytes "GPSLongitude")) := by
  have held := reported_held read
  refine ⟨held, ?_, ?_⟩
  · intro all position
    have found {name : String} (coordinate : name ∈ ["GPSLatitude", "GPSLongitude"]) :
        HoldsTag bytes name := by
      obtain ⟨entry, member, rfl⟩ :=
        List.mem_map.mp ((coordinate_reported_iff read coordinate).mpr position)
      exact all entry member
    exact ⟨found (by decide), found (by decide)⟩
  · intro both entry member
    rcases held entry member with already | ⟨coordinate, -⟩
    · exact already
    · have position := (coordinate_reported_iff read coordinate).mp (List.mem_map_of_mem member)
      simp only [List.mem_cons, List.not_mem_nil, or_false] at coordinate
      rcases coordinate with same | same
      · rw [same]
        exact (both position).1
      · rw [same]
        exact (both position).2

end

theorem reported_held_make :
    let image : Bytes := [0xFF, 0xD8, 0xFF, 0xE1, 0, 0x22, 0x45, 0x78, 0x69, 0x66, 0, 0, 0x4D, 0x4D, 0,
      0x2A, 0, 0, 0, 8, 0, 1, 0x01, 0x0F, 0, 2, 0, 0, 0, 4, 0x46, 0x4F, 0x4F, 0, 0, 0, 0, 0, 0xFF, 0xDA,
      0, 3, 1] ++ List.replicate 100 0
    Image.read image = .ok ⟨[("Make", "FOO")], false⟩ ∧ HoldsTag image "Make" := by
  intro image
  have read : Image.read image = .ok ⟨[("Make", "FOO")], false⟩ := by decide +kernel
  have noPosition : ¬ GivesPosition image := by
    rw [← coordinate_reported_iff read (List.mem_cons_self .. : "GPSLatitude" ∈ _)]
    decide
  have all := (reported_held_iff read).2.mpr fun position => absurd position noPosition
  exact ⟨read, all ("Make", "FOO") (by decide)⟩

/-- A block with one reference and no coordinate is said to have both coordinates. -/
theorem reported_without_coordinates :
    let image : Bytes := [0xFF, 0xD8, 0xFF, 0xE1, 0, 0x34, 0x45, 0x78, 0x69, 0x66, 0, 0, 0x4D, 0x4D, 0,
      0x2A, 0, 0, 0, 8, 0, 1, 0x88, 0x25, 0, 4, 0, 0, 0, 1, 0, 0, 0, 0x1A, 0, 0, 0, 0, 0, 1, 0, 1, 0, 2,
      0, 0, 0, 2, 0x4E, 0, 0, 0, 0, 0, 0, 0, 0xFF, 0xDA, 0, 3, 1] ++ List.replicate 100 0
    Image.read image = .ok ⟨[("GPSLatitudeRef", "N"), ("GPSLatitude", "0/0,0/0,0/0"),
        ("GPSLongitude", "0/0,0/0,0/0")], false⟩ ∧
      ¬ HoldsTag image "GPSLatitude" ∧ ¬ HoldsTag image "GPSLongitude" := by
  intro image
  let block : Bytes := [0x4D, 0x4D, 0, 0x2A, 0, 0, 0, 8, 0, 1, 0x88, 0x25, 0, 4, 0, 0, 0, 1, 0, 0, 0,
    0x1A, 0, 0, 0, 0, 0, 1, 0, 1, 0, 2, 0, 0, 0, 2, 0x4E, 0, 0, 0, 0, 0, 0, 0]
  have scan : Jpeg.scan? image = some block := by decide +kernel
  have headed : Tiff.header? block = some ⟨.big, 8⟩ := by decide
  have main : Tiff.wholeAt? .big block 8 =
      some ([⟨0x8825, 4, 1, [0, 0, 0, 0x1A]⟩], block.drop 22) := by
    decide
  have position : Tiff.wholeAt? .big block 26 =
      some ([⟨1, 2, 2, [0x4E, 0, 0, 0]⟩], block.drop 40) := by
    decide
  have lastMain : Tiff.nextOffset? .big block (block.drop 22) = none := by decide
  have lastPosition : Tiff.nextOffset? .big block (block.drop 40) = none := by decide
  -- Only the two directories can be reached, and the second one points nowhere.
  have reached {chain offset : Nat} (reached : Tiff.Reached .big block 8 chain offset) :
      offset = 8 ∨ offset = 26 := by
    induction reached with
    | first => exact .inl rfl
    | @pointed _ offset target entries rest entry _ whole member leads ih =>
        right
        rcases ih with rfl | rfl
        · rw [main] at whole
          obtain ⟨rfl, -⟩ := Prod.mk.inj (Option.some.inj whole)
          rw [List.mem_singleton.mp member] at leads
          exact leads.offset.symm
        · rw [position] at whole
          obtain ⟨rfl, -⟩ := Prod.mk.inj (Option.some.inj whole)
          rw [List.mem_singleton.mp member] at leads
          exact absurd leads.pointer (by decide)
    | @next _ offset target entries rest _ whole found ih =>
        rcases ih with rfl | rfl
        · rw [main] at whole
          obtain ⟨-, rfl⟩ := Prod.mk.inj (Option.some.inj whole)
          simp [lastMain] at found
        · rw [position] at whole
          obtain ⟨-, rfl⟩ := Prod.mk.inj (Option.some.inj whole)
          simp [lastPosition] at found
  have absent {id : Nat} (noField : id ≠ 0x8825 ∧ id ≠ 1) : ¬ Tiff.HasPositionField block id := by
    rintro ⟨header, chain, pointer, target, entries, rest, entry, found, seen, -, leads, inside,
      member, rfl⟩
    obtain rfl := Option.some.inj (headed.symm.trans found)
    obtain ⟨offset, here, behind, reach, whole, listed⟩ := seen
    rcases reached (reach.pointed whole listed leads) with rfl | rfl
    · rw [main] at inside
      obtain ⟨rfl, -⟩ := Prod.mk.inj (Option.some.inj inside)
      exact noField.1 (congrArg Tiff.Entry.id (List.mem_singleton.mp member))
    · rw [position] at inside
      obtain ⟨rfl, -⟩ := Prod.mk.inj (Option.some.inj inside)
      exact noField.2 (congrArg Tiff.Entry.id (List.mem_singleton.mp member))
  have missing (name : String) (id : Nat) (named : ∀ tag ∈ Tag.table, tag.name = name →
      tag.group = .gps ∧ tag.id = id) (noField : id ≠ 0x8825 ∧ id ≠ 1) : ¬ HoldsTag image name := by
    rintro ⟨tag, listed, same, other, found, held⟩
    obtain rfl := Option.some.inj (scan.symm.trans found)
    obtain ⟨group, number⟩ := named tag listed same
    rw [if_pos group, number] at held
    exact absent noField held
  refine ⟨by decide +kernel, ?_, ?_⟩
  · exact missing "GPSLatitude" 2 (by decide) (by decide)
  · exact missing "GPSLongitude" 4 (by decide) (by decide)

end PhotoTags.Image
