import Mathlib.Data.List.TakeWhile
import PhotoTags.Proofs.Text.Utf8
import PhotoTags.Proofs.Tiff.Part
import PhotoTags.Tiff.Datum
import PhotoTags.Tiff.Layout

/-!
The data of written values. Numbers, ratios and texts are read back from their bytes as they were,
a text of a date tag as the time that it denotes.
-/

namespace PhotoTags.Tiff

theorem sound_single {type : FieldType} {number : Nat} (single : type.arity = 1)
    (bound : number < Nat.pow 256 type.width) (noText : type ≠ .ascii) :
    (Value.mk type [number]).Sound := by
  refine sound_of_length Nat.one_pos ?_ (fun other listed => ?_) (fun same => absurd same noText)
  · rw [single]
    rfl
  · rwa [List.mem_singleton.mp listed]

def ratioNumbers (ratios : List (Nat × Nat)) : List Nat :=
  ratios.flatMap fun ratio => [ratio.1, ratio.2]

theorem length_ratioNumbers (ratios : List (Nat × Nat)) :
    (ratioNumbers ratios).length = ratios.length * 2 := by
  induction ratios with
  | nil => rfl
  | cons ratio rest ih =>
      rw [ratioNumbers] at ih ⊢
      simp only [List.flatMap_cons, List.length_append, List.length_cons, List.length_nil, ih]
      omega

theorem pairsOf_ratioNumbers (ratios : List (Nat × Nat)) :
    pairsOf (ratioNumbers ratios) = ratios := by
  induction ratios with
  | nil => rfl
  | cons ratio rest ih =>
      rw [ratioNumbers, List.flatMap_cons] at *
      simp [pairsOf, ih]

theorem sound_ratios {ratios : List (Nat × Nat)} (nonempty : ratios ≠ [])
    (fit : ∀ ratio ∈ ratios, ratio.1 < Nat.pow 256 4 ∧ ratio.2 < Nat.pow 256 4) :
    (Value.mk .rational (ratioNumbers ratios)).Sound := by
  refine sound_of_length (List.length_pos_iff.mpr nonempty) (length_ratioNumbers ratios) ?_ (by simp)
  intro number member
  obtain ⟨ratio, listed, place⟩ := List.mem_flatMap.mp member
  simp only [List.mem_cons, List.not_mem_nil, or_false] at place
  rcases place with rfl | rfl
  · exact (fit ratio listed).1
  · exact (fit ratio listed).2

theorem sound_text (characters : List Char) : (Value.text characters).Sound := by
  have whole : (Value.text characters).numbers.length =
      ((Text.utf8 characters).length + 1) * (Value.text characters).type.arity := by
    simp [Value.text, FieldType.arity]
  refine sound_of_length (Nat.succ_pos _) whole ?_ ?_
  · intro number member
    simp only [Value.text, List.mem_append, List.mem_map, List.mem_singleton] at member
    rcases member with ⟨byte, -, rfl⟩ | rfl
    · exact byte.toNat_lt
    · exact Nat.pow_pos (by decide)
  · intro _
    simp [Value.text]

theorem bytes_text (order : ByteOrder) (characters : List Char) :
    (Value.text characters).bytes order = Text.utf8 characters ++ [0] := by
  have single (number : Nat) : order.encode 1 number = [UInt8.ofNat number] := by
    cases order <;> rfl
  change ((Text.utf8 characters).map UInt8.toNat ++ [0]).flatMap (order.encode 1) = _
  simp only [List.flatMap_append, List.flatMap_map, single, UInt8.ofNat_toNat, List.flatMap_singleton]
  simp

theorem heldText_text {characters : List Char} (visible : ∀ byte ∈ Text.utf8 characters, byte ≠ 0) :
    heldText (Text.utf8 characters ++ [0]) = characters := by
  have held : ((Text.utf8 characters ++ [0]).dropWhile (· == 0)).takeWhile (· != 0) =
      Text.utf8 characters := by
    generalize Text.utf8 characters = bytes at visible ⊢
    cases bytes with
    | nil => rfl
    | cons byte rest =>
        rw [List.cons_append, List.dropWhile_cons_of_neg (by simpa using visible byte),
          ← List.cons_append, List.takeWhile_append_of_pos fun other member => by
            simpa using visible other member]
        simp
  rw [heldText, held, Text.ofBytes_utf8]

/-- A text is read from bytes as they hold it, whatever field they are of. -/
theorem heldText_of_ofValue? {order : ByteOrder} {zone : Option (List Char)} {id count : Nat}
    {type : FieldType} {bytes : Bytes} {characters : List Char}
    (read : Datum.ofValue? order zone id type count bytes = some (.text characters)) :
    heldText bytes = characters := by
  unfold Datum.ofValue? at read
  dsimp only at read
  split at read
  · simp at read
  · split at read
    · -- What is read of a date is a time, with an offset or without one.
      unfold dated? at read
      split at read <;> simp at read
    · cases type with
      | ascii => exact Datum.text.inj (Option.some.inj read)
      | byte | short | long | undefined | rational | signedRational => simp at read
      | signedByte | signedShort | signedLong | float | double =>
          dsimp only at read
          split at read <;> simp at read

theorem nul_not_mem_heldText (bytes : Bytes) : '\x00' ∉ heldText bytes := by
  refine Text.nul_not_mem_ofBytes fun byte member => ?_
  simpa using List.mem_takeWhile_imp member

def Field.datum? (order : ByteOrder) (field : Field) : Option Datum :=
  Datum.ofValue? order none field.id field.value.type field.value.count (field.value.bytes order)

theorem contains_dateIds {id : Nat} (undated : id ∉ dateIds) : dateIds.contains id = false := by
  rwa [← Bool.not_eq_true, List.contains_iff_mem]

section

variable {field : Field} (sound : field.value.Sound) (order : ByteOrder)

include sound

theorem datum?_date (dated : field.id ∈ dateIds) :
    field.datum? order =
      (Calendar.Layout.colons.read? (heldText (field.value.bytes order))).map (.time · none) := by
  have isDate : dateIds.contains field.id = true := List.contains_iff_mem.mpr dated
  simp only [Field.datum?, Datum.ofValue?, if_neg (Nat.ne_of_gt sound.filled), isDate, if_true]
  rfl

theorem datum?_number (undated : field.id ∉ dateIds) {type : FieldType}
    (typed : field.value.type = type) (numeric : type = .short ∨ type = .long) :
    field.datum? order = some (.numbers type field.value.numbers) := by
  have numbers := sound.numbersOf_bytes order
  rw [typed] at numbers
  simp only [Field.datum?, Datum.ofValue?, if_neg (Nat.ne_of_gt sound.filled),
    contains_dateIds undated, Bool.false_eq_true, if_false, typed, numbers]
  rcases numeric with rfl | rfl <;> rfl

theorem datum?_ratios (undated : field.id ∉ dateIds) (typed : field.value.type = .rational) :
    field.datum? order = some (.ratios false (pairsOf field.value.numbers)) := by
  have numbers := sound.numbersOf_bytes order
  rw [typed] at numbers
  simp only [Field.datum?, Datum.ofValue?, if_neg (Nat.ne_of_gt sound.filled),
    contains_dateIds undated, Bool.false_eq_true, if_false, typed, numbers]

theorem datum?_text (undated : field.id ∉ dateIds) (typed : field.value.type = .ascii) :
    field.datum? order = some (.text (heldText (field.value.bytes order))) := by
  simp only [Field.datum?, Datum.ofValue?, if_neg (Nat.ne_of_gt sound.filled),
    contains_dateIds undated, Bool.false_eq_true, if_false, typed]

end

end PhotoTags.Tiff
