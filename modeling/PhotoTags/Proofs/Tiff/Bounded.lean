import PhotoTags.Proofs.Tiff.Position
import PhotoTags.Proofs.Tiff.Shown

/-!
What is looked up in a block has been read from four bytes of an entry or from a part of the block,
so that a bound on the length of the block is one on the values that are found. The numbers of a
position have four bytes, whatever the block.
-/

namespace PhotoTags.Tiff

theorem length_of_slice? {block bytes : Bytes} {offset length : Nat}
    (found : slice? block offset length = some bytes) : bytes.length ≤ block.length := by
  unfold slice? at found
  dsimp only at found
  split at found
  · obtain rfl := Option.some.inj found
    exact Nat.le_trans (List.take_sublist ..).length_le (List.drop_sublist ..).length_le
  · simp at found

theorem Datum.IsSmall.mono {value : Datum} {few most : Nat} (small : value.IsSmall few)
    (le : few ≤ most) : value.IsSmall most := by
  cases value with
  | text characters => exact Nat.le_trans small le
  | time | numbers | signed | ratios | float => exact small

section

variable {order : ByteOrder} {block : Bytes} {zone : Option (List Char)}

theorem le_of_fitsAt {offset : Nat} (fits : fitsAt order block offset = true) :
    offset ≤ block.length := by
  unfold fitsAt at fits
  split at fits
  · have bound := of_decide_eq_true fits
    omega
  · simp at fits

theorem isSmall_of_outcome {entry : Entry} {value : Datum}
    (found : outcome order block zone entry = .datum value) : value.IsSmall (block.length + 4) := by
  unfold outcome at found
  split at found
  · simp at found
  · rename_i type known
    split at found
    · simp at found
    · rename_i bytes held
      have short : bytes.length ≤ block.length + 4 := by
        unfold Entry.valueBytes? at held
        dsimp only at held
        split at held
        · obtain rfl := Option.some.inj held
          exact Nat.le_trans (List.length_take_le ..) (by omega)
        · exact Nat.le_trans (length_of_slice? held) (Nat.le_add_right ..)
      split at found
      · simp at found
      · split at found
        · rename_i read
          exact Outcome.datum.inj found ▸ (isSmall_of_ofValue? read).mono short
        · simp at found

end

/-- An offset of a directory, which is a number of its own, lies in the block. -/
theorem isSmall_of_find? {block : Bytes} {survey : Survey} (surveyed : survey? block = some survey)
    (short : block.length < 2 ^ 32) {chain id : Nat} {value : Datum}
    (found : survey.find? chain id = some value) : value.IsSmall (block.length + 4) := by
  obtain ⟨header, -, -, visits⟩ := survey?_eq_some surveyed
  obtain ⟨visit, member, looked⟩ := List.exists_of_findSome?_eq_some found
  rw [visits] at member
  obtain ⟨entry, -, -, same⟩ := exists_seen_of_mem_visits .first member
  split at looked
  · rw [same] at looked
    split at looked
    · rename_i held
      exact Option.some.inj looked ▸ isSmall_of_outcome held
    · rename_i offset leads
      obtain rfl := Option.some.inj looked
      have inside := le_of_fitsAt (outcome_eq_directory_iff.mp leads).fits
      intro number single
      rw [List.mem_singleton.mp single]
      omega
    · simp at looked
  · simp at looked

def Coordinate.IsSmall (coordinate : Coordinate) : Prop :=
  ∀ ratio ∈ [coordinate.degrees, coordinate.minutes, coordinate.seconds],
    ratio.1 < 2 ^ 32 ∧ ratio.2 < 2 ^ 32

instance (coordinate : Coordinate) : Decidable coordinate.IsSmall :=
  inferInstanceAs (Decidable (∀ ratio ∈ _, _))

namespace Location

structure IsSmall (location : Location) : Prop where
  latitude : location.latitude.IsSmall
  longitude : location.longitude.IsSmall

theorem isSmall_coordinate? {values : List (Nat × Nat)} {coordinate : Coordinate}
    (small : ∀ ratio ∈ values, ratio.1 < 2 ^ 32 ∧ ratio.2 < 2 ^ 32)
    (found : coordinate? values = some coordinate) : coordinate.IsSmall := by
  unfold coordinate? at found
  split at found
  · rename_i degrees minutes seconds rest
    obtain rfl := Option.some.inj found
    intro ratio member
    apply small
    simp only [List.mem_cons, List.not_mem_nil, or_false] at member ⊢
    rcases member with same | same | same <;> simp [same]
  · simp at found

variable {order : ByteOrder} {block : Bytes} {zone : Option (List Char)}

theorem isSmall_coordinateOr? {kept coordinate : Coordinate} (small : kept.IsSmall) {entry : Entry}
    (found : coordinateOr? kept (outcome order block zone entry) = some coordinate) :
    coordinate.IsSmall := by
  unfold coordinateOr? at found
  split at found
  · exact Option.some.inj found ▸ small
  · rename_i held
    exact isSmall_coordinate? (isSmall_of_outcome held) found
  · exact Option.some.inj found ▸ small

theorem IsSmall.add? {location after : Location} (small : location.IsSmall) {entry : Entry}
    (added : location.add? (entry.id, outcome order block zone entry) = some after) :
    after.IsSmall := by
  unfold Location.add? at added
  dsimp only at added
  split at added
  · obtain rfl := Option.some.inj added
    exact ⟨small.latitude, small.longitude⟩
  · split at added
    · obtain ⟨latitude, found, rfl⟩ := Option.map_eq_some_iff.mp added
      exact ⟨isSmall_coordinateOr? small.latitude found, small.longitude⟩
    · split at added
      · obtain rfl := Option.some.inj added
        exact ⟨small.latitude, small.longitude⟩
      · split at added
        · obtain ⟨longitude, found, rfl⟩ := Option.map_eq_some_iff.mp added
          exact ⟨small.latitude, isSmall_coordinateOr? small.longitude found⟩
        · exact Option.some.inj added ▸ small

theorem IsSmall.foldlM {entries : List Entry} {location after : Location}
    (small : location.IsSmall)
    (folded : (entries.map fun entry => (entry.id, outcome order block zone entry)).foldlM
      Location.add? location = some after) : after.IsSmall := by
  induction entries generalizing location with
  | nil => exact Option.some.inj folded ▸ small
  | cons entry rest ih =>
      rw [List.map_cons, List.foldlM_cons] at folded
      obtain ⟨next, added, later⟩ := Option.bind_eq_some_iff.mp folded
      exact ih (small.add? added) later

theorem isSmall_of_location? {survey : Survey} {location : Location}
    (found : survey.location? block = some location) : location.IsSmall := by
  rw [location?_eq_bind] at found
  obtain ⟨items, listed, made⟩ := Option.bind_eq_some_iff.mp found
  unfold Survey.positionListing? at listed
  dsimp only at listed
  split at listed
  · obtain ⟨whole, -, rfl⟩ := Option.map_eq_some_iff.mp listed
    unfold ofListing? at made
    split at made
    · exact IsSmall.foldlM ⟨by decide, by decide⟩ made
    · simp at made
  · simp at listed

end Location

end PhotoTags.Tiff
