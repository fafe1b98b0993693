import PhotoTags.Proofs.Exchange.RoundTrip
import PhotoTags.Proofs.Image.Listing
import PhotoTags.Proofs.Image.Reported
import PhotoTags.Proofs.Jpeg.Rereading
import PhotoTags.Proofs.Tiff.Bounded

/-!
The attributes of any image fit into a text. They are at most as many as there are tags, and have
their names in the order of the table; a value has been read from one segment, which is short, or is
a text of bounded length.
-/

namespace PhotoTags

namespace Text

theorem utf8ByteSize_le (text : List Char) : (String.ofList text).utf8ByteSize ≤ 4 * text.length := by
  rw [← byteLength_toList, String.toList_ofList]
  exact byteLength_le text

end Text

namespace Tag

/-- Only a time that is written in another layout can get longer. -/
theorem length_undecorated_le (text : List Char) : (undecorated text).length ≤ text.length + 68 := by
  unfold undecorated
  split
  · rename_i quotient found
    obtain ⟨-, behind, rfl⟩ := decorated?_eq_some_iff.mp found
    rw [List.length_append]
    omega
  · split
    · rename_i time found
      have real := (clock?_eq_some_iff.mp found).2
      exact Nat.le_trans (Calendar.length_write_le .colons real) (Nat.le_add_left ..)
    · exact Nat.le_add_right ..

theorem length_of_plain? {shown text : List Char} (plain : plain? shown = some text) :
    text.length ≤ shown.length + 68 := by
  obtain ⟨bare, rfl, -, rfl⟩ := exists_of_plain? plain
  have stripped := (Text.stripWhile_sublist (· == '\x22') (Text.trim shown)).trans
    (Text.stripWhile_sublist Text.isBlank shown)
  exact Nat.le_trans (length_undecorated_le _) (Nat.add_le_add_right stripped.length_le 68)

end Tag

namespace Jpeg

theorem length_of_scanFrom {fuel : Nat} {bytes block : Bytes}
    (found : scanFrom fuel bytes = some block) : block.length ≤ maxContents := by
  induction fuel generalizing bytes with
  | zero => simp [scanFrom] at found
  | succ fuel ih =>
      unfold scanFrom at found
      split at found
      · rename_i later marker rest same
        obtain rfl := Nat.succ.inj same
        split at found
        · exact ih found
        · split at found
          · simp at found
          · rename_i contents rest held
            have short := contentsAt?_eq_some held
            split at found
            · split at found
              · obtain rfl := Option.some.inj found
                exact Nat.le_trans (List.drop_sublist ..).length_le short
              · simp at found
            · split at found
              · simp at found
              · exact ih found
      · simp at found

theorem length_of_scan? {bytes block : Bytes} (found : scan? bytes = some block) :
    block.length ≤ maxContents := by
  unfold scan? at found
  split at found
  · simp at found
  · split at found
    · exact length_of_scanFrom found
    · simp at found

end Jpeg

namespace Image

theorem names_tagEntries (walk : Tiff.Survey) (tag : Tag) :
    ((tagEntries walk tag).map (·.1)).Sublist [tag.name] := by
  unfold tagEntries
  split <;> simp

theorem names_flatMap_tagEntries (walk : Tiff.Survey) (tags : List Tag) :
    ((tags.flatMap (tagEntries walk)).map (·.1)).Sublist (tags.map (·.name)) := by
  induction tags with
  | nil => exact .slnil
  | cons tag rest ih =>
      rw [List.flatMap_cons, List.map_append]
      exact (names_tagEntries walk tag).append ih

theorem names_referenceEntries (name : String) (reference : Option Char) :
    ((referenceEntries name reference).map (·.1)).Sublist [name] := by
  cases reference <;> simp [referenceEntries]

theorem names_locationEntries (location : Tiff.Location) :
    ((locationEntries location).map (·.1)).Sublist (Tag.position.map (·.name)) := by
  rw [locationEntries, List.map_append, List.map_append, List.map_append]
  exact (((names_referenceEntries _ _).append (.refl _)).append (names_referenceEntries _ _)).append
    (.refl _)

theorem names_of_read {bytes : Bytes} {found : Findings} (read : Image.read bytes = .ok found) :
    (found.entries.map (·.1)).Sublist (Tag.table.map (·.name)) := by
  rcases read_eq_ok read with ⟨-, rfl⟩ | ⟨survey, -, rfl⟩
  · exact List.nil_sublist _
  · rw [Tag.table_eq, List.map_append]
    unfold Survey.entries
    rw [List.map_append]
    refine (names_flatMap_tagEntries survey.walk _).append ?_
    split
    · exact names_locationEntries _
    · exact List.nil_sublist _

theorem nodup_names_of_read {bytes : Bytes} {found : Findings}
    (read : Image.read bytes = .ok found) : (found.entries.map (·.1)).Nodup :=
  (by decide : (Tag.table.map (·.name)).Nodup).sublist (names_of_read read)

theorem length_quotientText_le {ratio : Nat × Nat} (small : ratio.1 < 2 ^ 32 ∧ ratio.2 < 2 ^ 32) :
    (quotientText ratio).length ≤ 67 := by
  have numerator := Text.length_decimal_le small.1
  have denominator := Text.length_decimal_le small.2
  rw [quotientText, List.length_append, List.length_cons]
  omega

theorem length_coordinateText_le {coordinate : Tiff.Coordinate} (small : coordinate.IsSmall) :
    (coordinateText coordinate).length ≤ 203 := by
  have degrees := length_quotientText_le (small coordinate.degrees (by simp))
  have minutes := length_quotientText_le (small coordinate.minutes (by simp))
  have seconds := length_quotientText_le (small coordinate.seconds (by simp))
  simp only [coordinateText, List.length_append, List.length_cons]
  omega

theorem size_tagEntries {walk : Tiff.Survey} {block : Bytes}
    (surveyed : Tiff.survey? block = some walk) (short : block.length ≤ Jpeg.maxContents) {tag : Tag}
    {entry : Entry} (member : entry ∈ tagEntries walk tag) :
    entry.2.utf8ByteSize < Text.bound64 := by
  unfold tagEntries at member
  unfold Jpeg.maxContents at short
  unfold Text.bound64
  split at member
  · rename_i text plain
    obtain ⟨value, found, bare⟩ := Option.bind_eq_some_iff.mp plain
    have small := Tiff.isSmall_of_find? surveyed (by omega) found
    have shown := Tiff.Datum.length_shown_le small
    have length := Tag.length_of_plain? bare
    rw [List.mem_singleton.mp member]
    have size := Text.utf8ByteSize_le text
    dsimp only
    omega
  · simp at member

theorem size_referenceEntries {name : String} {reference : Option Char} {entry : Entry}
    (member : entry ∈ referenceEntries name reference) : entry.2.utf8ByteSize < Text.bound64 := by
  unfold Text.bound64
  cases reference with
  | none => simp [referenceEntries] at member
  | some character =>
      rw [referenceEntries, List.mem_singleton] at member
      have size := Text.utf8ByteSize_le [character]
      rw [member]
      rw [List.length_singleton] at size
      dsimp only
      omega

theorem size_locationEntries {location : Tiff.Location} (small : location.IsSmall) {entry : Entry}
    (member : entry ∈ locationEntries location) : entry.2.utf8ByteSize < Text.bound64 := by
  have coordinate {coordinate : Tiff.Coordinate} (small : coordinate.IsSmall) :
      (String.ofList (coordinateText coordinate)).utf8ByteSize < Text.bound64 := by
    have length := length_coordinateText_le small
    have size := Text.utf8ByteSize_le (coordinateText coordinate)
    unfold Text.bound64
    omega
  simp only [locationEntries, List.mem_append, List.mem_singleton] at member
  rcases member with ((latitudeRef | rfl) | longitudeRef) | rfl
  · exact size_referenceEntries latitudeRef
  · exact coordinate small.latitude
  · exact size_referenceEntries longitudeRef
  · exact coordinate small.longitude

theorem sizes_of_read {bytes : Bytes} {found : Findings} (read : Image.read bytes = .ok found) :
    ∀ entry ∈ found.entries, entry.2.utf8ByteSize < Text.bound64 := by
  intro entry member
  rcases read_eq_ok read with ⟨-, rfl⟩ | ⟨survey, surveyed, rfl⟩
  · simp [Findings.empty] at member
  · obtain ⟨scan, walked⟩ := survey_eq_some surveyed
    rcases List.mem_append.mp member with own | position
    · obtain ⟨tag, -, shown⟩ := List.mem_flatMap.mp own
      exact size_tagEntries walked (Jpeg.length_of_scan? scan) shown
    · split at position
      · rename_i location located
        exact size_locationEntries (Tiff.Location.isSmall_of_location? located) position
      · simp at position

/-- The attributes fit into a text along with the entry about the thumbnail. -/
theorem fits_of_read {bytes : Bytes} {found : Findings} (read : Image.read bytes = .ok found) :
    Exchange.Fits (found.entries ++ [Exchange.thumbnailEntry found.hasThumbnail]) := by
  have few := (names_of_read read).length_le
  have tags : (Tag.table.map (·.name)).length = 22 := by decide
  rw [List.length_map, tags] at few
  constructor
  · rw [List.length_append, List.length_singleton, Text.bound64]
    omega
  · intro entry member
    rcases List.mem_append.mp member with own | flag
    · exact sizes_of_read read entry own
    · rw [List.mem_singleton.mp flag]
      cases found.hasThumbnail <;> decide

end Image

end PhotoTags
