import PhotoTags.Proofs.Tag.Canonical
import PhotoTags.Proofs.Text.Numeral

/-!
What a text of a tag becomes, whether it is canonical or not: a value that comes back as it is from
the block that it is written into.
-/

namespace PhotoTags.Tag

theorem mem_of_mapM {α β : Type} {read? : α → Option β} {items : List α} {values : List β}
    (read : items.mapM read? = some values) :
    ∀ value ∈ values, ∃ item ∈ items, read? item = some value := by
  induction items generalizing values with
  | nil => simp_all
  | cons item rest ih =>
      rw [List.mapM_cons] at read
      obtain ⟨first, found, others⟩ := Option.bind_eq_some_iff.mp read
      obtain ⟨later, readLater, same⟩ := Option.bind_eq_some_iff.mp others
      obtain rfl := Option.some.inj same
      intro value member
      rcases List.mem_cons.mp member with rfl | behind
      · exact ⟨item, List.mem_cons_self .., found⟩
      · obtain ⟨other, listed, otherFound⟩ := ih readLater value behind
        exact ⟨other, List.mem_cons_of_mem _ listed, otherFound⟩

theorem lt_of_unsigned? {bound number : Nat} {text : List Char}
    (read : Text.unsigned? bound text = some number) : number < bound :=
  (Text.unsigned?_eq_some_iff.mp read).1

theorem fitsWords_of_quotient? {text : List Char} {ratio : Nat × Nat}
    (read : quotient? text = some ratio) : FitsWords ratio := by
  unfold quotient? at read
  split at read
  · simp at read
  · split at read
    · rename_i numerator denominator
      obtain rfl := Option.some.inj read
      exact ⟨lt_of_unsigned? numerator, lt_of_unsigned? denominator⟩
    · simp at read

theorem stored_numbers {type : Tiff.FieldType} {numbers : List Nat} (single : type.arity = 1)
    (noText : type ≠ .ascii) (bounds : ∀ number ∈ numbers, number < Nat.pow 256 type.width) :
    (Tiff.Value.mk type numbers).Stored :=
  Tiff.stored_of_length (by rw [single, Nat.mul_one]) bounds fun same => absurd same noText

theorem stored_value? {format : Format} {text : String} {value : Tiff.Value}
    (read : format.value? text = some value) : value.Stored := by
  cases format with
  | text =>
      obtain rfl := Option.some.inj read
      exact (Tiff.sound_text _).toStored
  | short =>
      obtain ⟨numbers, parts, rfl⟩ := Option.map_eq_some_iff.mp read
      refine stored_numbers rfl (by decide) fun number member => ?_
      obtain ⟨part, -, found⟩ := mem_of_mapM parts number member
      exact lt_of_unsigned? found
  | long =>
      obtain ⟨numbers, parts, rfl⟩ := Option.map_eq_some_iff.mp read
      refine stored_numbers rfl (by decide) fun number member => ?_
      obtain ⟨part, -, found⟩ := mem_of_mapM parts number member
      exact lt_of_unsigned? found
  | rational =>
      obtain ⟨ratios, parts, rfl⟩ := Option.map_eq_some_iff.mp read
      refine Tiff.stored_of_length (Tiff.length_ratioNumbers ratios) ?_ (by simp)
      intro number member
      obtain ⟨ratio, listed, place⟩ := List.mem_flatMap.mp member
      obtain ⟨part, -, found⟩ := mem_of_mapM parts ratio listed
      have fits := fitsWords_of_quotient? found
      simp only [List.mem_cons, List.not_mem_nil, or_false] at place
      rcases place with rfl | rfl
      · exact fits.1
      · exact fits.2

end PhotoTags.Tag
