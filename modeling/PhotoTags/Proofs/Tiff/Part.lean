import PhotoTags.Tiff.Value

/-!
Parts of a block of bytes by the offsets at which they stand, and what is read there: numbers come
back from their bytes, and so do values.
-/

namespace PhotoTags.Tiff

def Stands (block : Bytes) (offset : Nat) (part : Bytes) : Prop :=
  part <+: block.drop offset

theorem stands_append_iff {block first second : Bytes} {offset : Nat} :
    Stands block offset (first ++ second) ↔
      Stands block offset first ∧ Stands block (offset + first.length) second := by
  unfold Stands
  rw [← List.drop_drop]
  constructor
  · rintro ⟨rest, whole⟩
    rw [← whole, List.append_assoc, List.drop_left]
    exact ⟨List.prefix_append _ _, List.prefix_append _ _⟩
  · rintro ⟨⟨rest, whole⟩, second⟩
    rw [← whole, List.drop_left] at second
    obtain ⟨behind, rfl⟩ := second
    rw [← whole]
    exact ⟨behind, by simp⟩

theorem stands_of_eq {block whole : Bytes} (same : block = whole) : Stands block 0 whole := by
  rw [Stands, same]
  exact List.prefix_rfl

theorem Stands.within {block part : Bytes} {offset : Nat} (stands : Stands block offset part)
    (nonempty : part ≠ []) : offset + part.length ≤ block.length := by
  have fits := List.IsPrefix.length_le stands
  have filled := List.length_pos_iff.mpr nonempty
  rw [List.length_drop] at fits
  omega

theorem Stands.slice?_eq {block part : Bytes} {offset : Nat} (stands : Stands block offset part) :
    slice? block offset part.length = some part := by
  unfold slice?
  rw [← List.prefix_iff_eq_take.mp stands]
  simp

theorem Stands.number?_eq {order : ByteOrder} {block : Bytes} {offset width number : Nat}
    (stands : Stands block offset (order.encode width number)) (bound : number < Nat.pow 256 width) :
    number? order block offset width = some number := by
  have found := stands.slice?_eq
  rw [order.length_encode] at found
  rw [number?, found, Option.map_some, order.decode_encode width number bound]

theorem length_flatMap_encode (order : ByteOrder) (width : Nat) (numbers : List Nat) :
    (numbers.flatMap (order.encode width)).length = numbers.length * width := by
  induction numbers with
  | nil => simp
  | cons number rest ih =>
      rw [List.flatMap_cons, List.length_append, order.length_encode, ih, List.length_cons,
        Nat.succ_mul, Nat.add_comm]

theorem numbersOf_flatMap_encode (order : ByteOrder) {width : Nat} {numbers : List Nat}
    (bounds : ∀ number ∈ numbers, number < Nat.pow 256 width) :
    numbersOf order width numbers.length (numbers.flatMap (order.encode width)) = numbers := by
  induction numbers with
  | nil => rfl
  | cons number rest ih =>
      have width' := order.length_encode width number
      rw [List.flatMap_cons, List.length_cons, numbersOf, List.take_left' width',
        List.drop_left' width', order.decode_encode width number (bounds number (by simp)),
        ih fun other member => bounds other (List.mem_cons_of_mem _ member)]

theorem ofCode?_code (type : FieldType) : FieldType.ofCode? type.code = some type := by
  cases type <;> rfl

theorem code_lt (type : FieldType) : type.code < 65536 := by
  cases type <;> decide

theorem size_pos (type : FieldType) : 0 < type.size := by
  cases type <;> decide

structure Value.Stored (value : Value) : Prop where
  bounds : ∀ number ∈ value.numbers, number < Nat.pow 256 value.type.width
  whole : value.numbers.length = value.count * value.type.arity
  ended : value.type = .ascii → withFinalNul value.numbers = value.numbers

structure Value.Sound (value : Value) : Prop extends value.Stored where
  filled : 0 < value.count

namespace Value.Stored

variable {value : Value} (stored : value.Stored)

include stored

theorem length_bytes (order : ByteOrder) :
    (value.bytes order).length = value.type.size * value.count := by
  rw [Value.bytes, length_flatMap_encode, stored.whole, FieldType.size]
  ac_rfl

theorem numbersOf_bytes (order : ByteOrder) :
    numbersOf order value.type.width (value.count * value.type.arity) (value.bytes order) =
      value.numbers := by
  rw [← stored.whole]
  exact numbersOf_flatMap_encode order stored.bounds

theorem ofBytes_bytes (order : ByteOrder) :
    Value.ofBytes order value.type value.count (value.bytes order) = value := by
  rw [Value.ofBytes, stored.numbersOf_bytes]
  obtain ⟨type, numbers⟩ := value
  by_cases isText : type = .ascii
  · rw [if_pos isText]
    exact congrArg (Value.mk type) (stored.ended isText)
  · simp [isText]

end Value.Stored

theorem withFinalNul_eq {numbers : List Nat} (last : numbers.getLast? = some 0) :
    withFinalNul numbers = numbers := by
  simp [withFinalNul, last]

theorem withFinalNul_withFinalNul (numbers : List Nat) :
    withFinalNul (withFinalNul numbers) = withFinalNul numbers := by
  cases last : numbers.getLast? with
  | none => simp [withFinalNul, last]
  | some number =>
      by_cases ended : number = 0
      · have already : withFinalNul numbers = numbers := withFinalNul_eq (by rw [last, ended])
        rw [already, already]
      · have added : withFinalNul numbers = numbers ++ [0] := by simp [withFinalNul, last, ended]
        rw [added, withFinalNul_eq List.getLast?_concat]

theorem Value.count_of_length {value : Value} {count : Nat}
    (whole : value.numbers.length = count * value.type.arity) : value.count = count := by
  have arity : 0 < value.type.arity := by
    cases value.type <;> decide
  rw [Value.count, whole, Nat.mul_div_cancel _ arity]

theorem stored_of_length {value : Value} {count : Nat}
    (whole : value.numbers.length = count * value.type.arity)
    (bounds : ∀ number ∈ value.numbers, number < Nat.pow 256 value.type.width)
    (ended : value.type = .ascii → withFinalNul value.numbers = value.numbers) : value.Stored :=
  ⟨bounds, by rw [Value.count_of_length whole, whole], ended⟩

theorem sound_of_length {value : Value} {count : Nat} (filled : 0 < count)
    (whole : value.numbers.length = count * value.type.arity)
    (bounds : ∀ number ∈ value.numbers, number < Nat.pow 256 value.type.width)
    (ended : value.type = .ascii → value.numbers.getLast? = some 0) : value.Sound :=
  ⟨stored_of_length whole bounds fun isText => withFinalNul_eq (ended isText),
    by rwa [Value.count_of_length whole]⟩

end PhotoTags.Tiff
