import PhotoTags.Proofs.Calendar.Length
import PhotoTags.Proofs.Text.Utf8
import PhotoTags.Proofs.Tiff.Stored
import PhotoTags.Tiff.Datum

/-!
How long the texts of values get. The numbers of a value have four bytes at most and its dates are
dates that there are, so that each element has a bounded text; of longer lists only the first
elements are shown, and a text has no more characters than bytes.
-/

namespace PhotoTags

namespace Text

theorem length_le_byteLength (text : List Char) : text.length ≤ byteLength text := by
  induction text with
  | nil => exact Nat.le_refl 0
  | cons c rest ih =>
      have positive := c.utf8Size_pos
      rw [byteLength_cons, List.length_cons]
      omega

theorem byteLength_le (text : List Char) : byteLength text ≤ 4 * text.length := by
  induction text with
  | nil => exact Nat.le_refl 0
  | cons c rest ih =>
      have few := c.utf8Size_le_four
      rw [byteLength_cons, List.length_cons]
      omega

theorem length_ofBytes_le (bytes : Bytes) : (ofBytes bytes).length ≤ bytes.length := by
  unfold ofBytes ofUtf8?
  cases decoded : String.fromUTF8? ⟨bytes.toArray⟩ with
  | none => simp [ofLatin1]
  | some text =>
      rw [String.fromUTF8?] at decoded
      split at decoded
      · obtain rfl := Option.some.inj decoded
        have size : (String.fromUTF8 ⟨bytes.toArray⟩ ‹_›).utf8ByteSize = bytes.length := rfl
        rw [Option.map_some, Option.getD_some, ← size, ← byteLength_toList]
        exact length_le_byteLength _
      · simp at decoded

end Text

namespace Tiff

theorem mem_of_mem_pairsOf {numbers : List Nat} {ratio : Nat × Nat}
    (member : ratio ∈ pairsOf numbers) : ratio.1 ∈ numbers ∧ ratio.2 ∈ numbers := by
  induction numbers using pairsOf.induct with
  | case1 numerator denominator rest ih =>
      rw [pairsOf] at member
      rcases List.mem_cons.mp member with rfl | later
      · simp
      · obtain ⟨first, second⟩ := ih later
        simp [first, second]
  | case2 numbers short =>
      rw [pairsOf] at member
      · simp at member
      · exact short

theorem natAbs_twosComplement_le {width number : Nat} (below : number < 2 ^ (8 * width)) :
    (twosComplement width number).natAbs ≤ 2 ^ (8 * width) := by
  have power : Nat.pow 2 (8 * width) = 2 ^ (8 * width) := rfl
  unfold twosComplement
  rw [power]
  split <;> omega

section

variable {order : ByteOrder} {width count number : Nat} {bytes : Bytes}

theorem lt_of_mem_numbersOf (member : number ∈ numbersOf order width count bytes) :
    number < 2 ^ (8 * width) := by
  rw [Nat.pow_mul]
  exact numbersOf_lt order width count bytes number member

variable (narrow : width ≤ 4)

include narrow

theorem pow_width_le : 2 ^ (8 * width) ≤ 2 ^ 32 :=
  Nat.pow_le_pow_right Nat.two_pos (by omega)

theorem word_of_mem_numbersOf (member : number ∈ numbersOf order width count bytes) :
    number < 2 ^ 32 :=
  Nat.lt_of_lt_of_le (lt_of_mem_numbersOf member) (pow_width_le narrow)

theorem words_of_mem_pairsOf {ratio : Nat × Nat}
    (member : ratio ∈ pairsOf (numbersOf order width count bytes)) :
    ratio.1 < 2 ^ 32 ∧ ratio.2 < 2 ^ 32 :=
  ⟨word_of_mem_numbersOf narrow (mem_of_mem_pairsOf member).1,
    word_of_mem_numbersOf narrow (mem_of_mem_pairsOf member).2⟩

theorem natAbs_le_of_numbersOf_eq (single : numbersOf order width count bytes = [number]) :
    (twosComplement width number).natAbs ≤ 2 ^ 32 := by
  have below := lt_of_mem_numbersOf (single ▸ List.mem_singleton_self number)
  exact Nat.le_trans (natAbs_twosComplement_le below) (pow_width_le narrow)

end

def Datum.IsSmall (most : Nat) : Datum → Prop
  | text characters => characters.length ≤ most
  | time clock offset => clock.IsReal ∧ ∀ minutes ∈ offset, minutes.natAbs < 1440
  | numbers _ values => ∀ number ∈ values, number < 2 ^ 32
  | signed value => value.natAbs ≤ 2 ^ 32
  | ratios _ values => ∀ ratio ∈ values, ratio.1 < 2 ^ 32 ∧ ratio.2 < 2 ^ 32
  | float value _ => value.IsSmall

theorem isReal_of_zoned? {text zone : List Char} {clock : LocalTime} {offset : Int}
    (read : zoned? text zone = some (clock, offset)) :
    clock.IsReal ∧ offset.natAbs < 1440 := by
  simp only [zoned?, Option.bind_eq_bind, Option.bind_eq_some_iff] at read
  obtain ⟨⟨time, rest⟩, -, found, loose, checked⟩ := read
  dsimp only at checked loose
  split at checked
  · rename_i real
    obtain ⟨rfl, rfl⟩ := Prod.mk.inj (Option.some.inj checked)
    refine ⟨real.1, ?_⟩
    unfold looseOffset? at loose
    split at loose
    · rename_i given
      exact Option.some.inj loose ▸ Calendar.natAbs_of_offsetWith given
    · simp at loose
  · simp at checked

theorem isSmall_of_dated? {text : List Char} {zone : Option (List Char)} {value : Datum}
    (read : dated? text zone = some value) (most : Nat) : value.IsSmall most := by
  unfold dated? at read
  split at read
  · rename_i clock offset given
    obtain rfl := Option.some.inj read
    obtain ⟨behind, -, found⟩ := Option.bind_eq_some_iff.mp given
    obtain ⟨real, near⟩ := isReal_of_zoned? found
    exact ⟨real, fun minutes same => Option.some.inj same ▸ near⟩
  · obtain ⟨clock, found, rfl⟩ := Option.map_eq_some_iff.mp read
    exact ⟨Calendar.isReal_of_read? found, by simp⟩

theorem length_heldText_le (bytes : Bytes) : (heldText bytes).length ≤ bytes.length := by
  have taken := (List.takeWhile_sublist (· != 0) (l := bytes.dropWhile (· == 0))).length_le
  have dropped := (List.dropWhile_sublist (· == 0) (l := bytes)).length_le
  exact Nat.le_trans (Text.length_ofBytes_le _) (Nat.le_trans taken dropped)

theorem isSmall_of_ofValue? {order : ByteOrder} {zone : Option (List Char)} {id count : Nat}
    {type : FieldType} {bytes : Bytes} {value : Datum}
    (read : Datum.ofValue? order zone id type count bytes = some value) :
    value.IsSmall bytes.length := by
  unfold Datum.ofValue? at read
  dsimp only at read
  split at read
  · simp at read
  · split at read
    · exact isSmall_of_dated? read _
    · cases type with
      | ascii =>
          obtain rfl := Option.some.inj read
          exact length_heldText_le bytes
      | byte | short | long | undefined =>
          obtain rfl := Option.some.inj read
          exact fun number => word_of_mem_numbersOf (by decide)
      | rational | signedRational =>
          obtain rfl := Option.some.inj read
          exact fun ratio => words_of_mem_pairsOf (by decide)
      | signedByte | signedShort | signedLong =>
          dsimp only at read
          split at read
          · rename_i single
            obtain rfl := Option.some.inj read
            exact natAbs_le_of_numbersOf_eq (by decide) single
          · simp at read
      | float =>
          dsimp only at read
          split at read
          · obtain rfl := Option.some.inj read
            exact Decimal.isSmall_decode (.inl rfl) _
          · simp at read
      | double =>
          dsimp only at read
          split at read
          · obtain rfl := Option.some.inj read
            exact Decimal.isSmall_decode (.inr rfl) _
          · simp at read

theorem length_intercalate_le {bound : Nat} {elements : List (List Char)}
    (short : ∀ element ∈ elements, element.length ≤ bound) :
    ([',', ' '].intercalate elements).length ≤ elements.length * (bound + 2) := by
  induction elements with
  | nil => exact Nat.zero_le _
  | cons first rest ih =>
      have own := short first (List.mem_cons_self ..)
      have others := ih fun element member => short element (List.mem_cons_of_mem _ member)
      rw [List.length_cons, Nat.succ_mul]
      cases rest with
      | nil =>
          rw [List.intercalate_singleton]
          omega
      | cons second later =>
          rw [List.intercalate_cons_cons]
          simp only [List.length_append, List.length_cons, List.length_nil] at others ⊢
          omega

namespace Datum

theorem length_listText_le {name : String} {most bound : Nat} {elements : List (List Char)}
    (wide : 3 ≤ bound) (short : ∀ element ∈ elements, element.length ≤ bound) :
    (listText name most elements).length ≤
      name.toList.length + (most + 1) * (bound + 2) + 2 := by
  unfold listText
  dsimp only
  have few : (elements.take most ++
      if most < elements.length then [['.', '.', '.']] else []).length ≤ most + 1 := by
    rw [List.length_append]
    have taken := List.length_take_le most elements
    split
    · rw [List.length_singleton]
      omega
    · rw [List.length_nil]
      omega
  have each : ∀ element ∈ elements.take most ++
      (if most < elements.length then [['.', '.', '.']] else []), element.length ≤ bound := by
    intro element member
    rcases List.mem_append.mp member with shown | dots
    · exact short element (List.mem_of_mem_take shown)
    · split at dots
      · rw [List.mem_singleton.mp dots]
        exact wide
      · simp at dots
  have joined := Nat.le_trans (length_intercalate_le each) (Nat.mul_le_mul_right (bound + 2) few)
  simp only [List.length_append, List.length_cons, List.length_nil]
  omega

theorem length_numbersText_le {type : FieldType} {values : List Nat}
    (small : ∀ number ∈ values, number < 2 ^ 32) : (numbersText type values).length ≤ 344 := by
  have elements : ∀ element ∈ values.map elementText, element.length ≤ 35 := by
    intro element member
    obtain ⟨number, inside, rfl⟩ := List.mem_map.mp member
    have digits : (Text.hexadecimal number).length ≤ 33 :=
      Text.length_toDigits_le (by decide) (small number inside)
    have padded := Text.length_padStart 2 '0' (Text.hexadecimal number)
    rw [elementText, List.length_cons, List.length_cons]
    omega
  have list {name : String} (named : name.toList.length ≤ 9) :
      (listText name 8 (values.map elementText)).length ≤ 344 :=
    Nat.le_trans (length_listText_le (by decide) elements) (by omega)
  unfold numbersText
  split
  · exact list (by decide)
  · rename_i number _
    exact Nat.le_trans (Text.length_decimal_le (small number (List.mem_singleton_self _)))
      (by decide)
  · exact list (by decide)
  · exact list (by decide)
  · exact list (by decide)

theorem isSmall_quotient (numerator denominator : Int) :
    (quotient numerator denominator).IsSmall := by
  unfold quotient
  dsimp only
  split
  · split <;> trivial
  · have decoded := Decimal.isSmall_decode (.inr rfl)
      (Decimal.double.nearest numerator.natAbs denominator.natAbs)
    split
    · rename_i same
      rw [same] at decoded
      exact decoded
    · exact decoded

theorem length_ratioText_le (isSigned : Bool) {ratio : Nat × Nat} (first : ratio.1 < 2 ^ 32)
    (second : ratio.2 < 2 ^ 32) : (ratioText isSigned ratio).length ≤ 2193 := by
  have number {word : Nat} (below : word < 2 ^ 32) :
      (Text.signedDecimal (if isSigned then twosComplement 4 word else (word : Int))).length ≤
        35 := by
    refine Text.length_signedDecimal_le ?_
    have complement : (twosComplement 4 word).natAbs ≤ 2 ^ (8 * 4) := natAbs_twosComplement_le below
    split <;> omega
  have value := Decimal.length_fixedText_le (isSmall_quotient
    (if isSigned then twosComplement 4 ratio.1 else (ratio.1 : Int))
    (if isSigned then twosComplement 4 ratio.2 else (ratio.2 : Int)))
  have above := number first
  have below := number second
  unfold ratioText
  simp only [List.length_append, List.length_cons, List.length_nil]
  omega

theorem length_ratiosText_le (isSigned : Bool) {values : List (Nat × Nat)}
    (small : ∀ ratio ∈ values, ratio.1 < 2 ^ 32 ∧ ratio.2 < 2 ^ 32) :
    (ratiosText isSigned values).length ≤ 8800 := by
  have elements : ∀ element ∈ values.map (ratioText isSigned), element.length ≤ 2193 := by
    intro element member
    obtain ⟨ratio, inside, rfl⟩ := List.mem_map.mp member
    exact length_ratioText_le isSigned (small ratio inside).1 (small ratio inside).2
  unfold ratiosText
  split
  · have single := elements _ (List.mem_singleton_self _)
    omega
  · refine Nat.le_trans (length_listText_le (by decide) elements) ?_
    have named : (if isSigned then "IRationalArray" else "URationalArray").toList.length = 14 := by
      cases isSigned <;> rfl
    omega

/-- The longest text of a value besides the text that it holds is that of a floating-point number. -/
theorem length_shown_le {value : Datum} {most : Nat} (small : value.IsSmall most) :
    value.shown.length ≤ most + 13120 := by
  cases value with
  | text characters =>
      exact Nat.le_trans small (Nat.le_add_right most 13120)
  | time clock offset =>
      cases offset with
      | none => exact Nat.le_trans (Calendar.length_write_le .dashes small.1) (by omega)
      | some minutes =>
          exact Nat.le_trans (Calendar.length_timestampText_le small.1 (small.2 minutes rfl))
            (by omega)
  | numbers type values =>
      exact Nat.le_trans (length_numbersText_le small) (by omega)
  | signed number =>
      have below : number.natAbs < 2 ^ 33 := Nat.lt_of_le_of_lt small (by decide)
      exact Nat.le_trans (Text.length_signedDecimal_le below) (by omega)
  | ratios isSigned values =>
      exact Nat.le_trans (length_ratiosText_le isSigned small) (by omega)
  | float number format =>
      exact Nat.le_trans (Decimal.length_plainText_le format small) (by omega)

end Datum

end Tiff

end PhotoTags
