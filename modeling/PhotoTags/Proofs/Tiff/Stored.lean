import PhotoTags.Proofs.Tiff.Kept

/-!
What is read from any block, well formed or not: its fields can be written and come back as they
are, and they belong to the first two links of the chain.
-/

namespace PhotoTags.Tiff

theorem ofLowFirst_lt (bytes : Bytes) : ofLowFirst bytes < Nat.pow 256 bytes.length := by
  induction bytes with
  | nil => decide
  | cons byte rest ih =>
      have low := byte.toNat_lt
      have step : Nat.pow 256 (rest.length + 1) = Nat.pow 256 rest.length * 256 := rfl
      rw [ofLowFirst, List.length_cons, step]
      omega

theorem ByteOrder.decode_lt (order : ByteOrder) (bytes : Bytes) :
    order.decode bytes < Nat.pow 256 bytes.length := by
  cases order with
  | big => simpa [decode] using ofLowFirst_lt bytes.reverse
  | little => exact ofLowFirst_lt bytes

theorem ByteOrder.decode_take_lt (order : ByteOrder) (width : Nat) (bytes : Bytes) :
    order.decode (bytes.take width) < Nat.pow 256 width :=
  Nat.lt_of_lt_of_le (order.decode_lt _)
    (Nat.pow_le_pow_right (by decide) (List.length_take_le width bytes))

theorem length_numbersOf (order : ByteOrder) (width count : Nat) (bytes : Bytes) :
    (numbersOf order width count bytes).length = count := by
  induction count generalizing bytes with
  | zero => rfl
  | succ count ih => rw [numbersOf, List.length_cons, ih]

theorem numbersOf_lt (order : ByteOrder) (width count : Nat) (bytes : Bytes) :
    ∀ number ∈ numbersOf order width count bytes, number < Nat.pow 256 width := by
  induction count generalizing bytes with
  | zero => simp [numbersOf]
  | succ count ih =>
      intro number member
      rcases List.mem_cons.mp member with rfl | later
      · exact order.decode_take_lt width bytes
      · exact ih _ number later

theorem mem_withFinalNul {numbers : List Nat} {number : Nat}
    (member : number ∈ withFinalNul numbers) : number ∈ numbers ∨ number = 0 := by
  unfold withFinalNul at member
  split at member
  · simp at member
  · split at member
    · exact .inl member
    · simpa using member

theorem stored_ofBytes (order : ByteOrder) (type : FieldType) (count : Nat) (bytes : Bytes) :
    (Value.ofBytes order type count bytes).Stored := by
  have bounds := numbersOf_lt order type.width (count * type.arity) bytes
  have length := length_numbersOf order type.width (count * type.arity) bytes
  unfold Value.ofBytes
  dsimp only
  by_cases isText : type = .ascii
  · subst isText
    rw [if_pos rfl]
    refine stored_of_length (Nat.mul_one _).symm ?_ fun _ => withFinalNul_withFinalNul _
    intro number member
    rcases mem_withFinalNul member with listed | rfl
    · exact bounds number listed
    · exact Nat.pow_pos (by decide)
  · rw [if_neg isText]
    exact stored_of_length length bounds fun same => absurd same isText

theorem Entry.id_ofBytes_lt (order : ByteOrder) (bytes : Bytes) :
    (Entry.ofBytes order bytes).id < 65536 :=
  order.decode_take_lt 2 bytes

theorem id_of_mem_entriesOf {order : ByteOrder} {count : Nat} {bytes : Bytes} :
    ∀ entry ∈ (entriesOf order count bytes).1, entry.id < 65536 := by
  induction count generalizing bytes with
  | zero => simp [entriesOf]
  | succ count ih =>
      intro entry member
      rw [entriesOf] at member
      split at member
      · rcases List.mem_cons.mp member with rfl | later
        · exact Entry.id_ofBytes_lt order bytes
        · exact ih entry later
      · simp at member

theorem id_of_mem_entriesAt {order : ByteOrder} {block : Bytes} {offset : Nat} :
    ∀ entry ∈ (entriesAt order block offset).1, entry.id < 65536 := by
  intro entry member
  unfold entriesAt at member
  split at member
  · simp at member
  · exact id_of_mem_entriesOf entry member

structure Slot.Sound (chain : Nat) (slot : Slot) : Prop where
  id : slot.id < 65536
  chain : slot.chain = chain
  value : ∀ value, slot.value = some value → value.Stored

section

variable {order : ByteOrder} {block : Bytes} {chain : Nat}

theorem sound_slotsOf {directory : Directory} {entry : Entry} (bound : entry.id < 65536) :
    ∀ slot ∈ slotsOf order block chain directory entry, slot.Sound chain := by
  intro slot member
  unfold slotsOf at member
  dsimp only at member
  split at member
  · simp at member
  · rw [List.mem_singleton.mp member]
    refine ⟨bound, rfl, fun value found => ?_⟩
    unfold Entry.value? at found
    split at found
    · simp at found
    · obtain ⟨bytes, -, rfl⟩ := Option.map_eq_some_iff.mp found
      exact stored_ofBytes order _ _ bytes

theorem sound_pointed {slotsAt : Nat → List Slot} {entry : Entry}
    (sound : ∀ offset, ∀ slot ∈ slotsAt offset, slot.Sound chain) :
    ∀ slot ∈ pointed order block slotsAt entry, slot.Sound chain := by
  intro slot member
  unfold pointed at member
  split at member
  · exact sound _ slot member
  · simp at member

theorem sound_leafSlots (directory : Directory) (offset : Nat) :
    ∀ slot ∈ leafSlots order block chain directory offset, slot.Sound chain := by
  intro slot member
  obtain ⟨entry, listed, own⟩ := List.mem_flatMap.mp member
  exact sound_slotsOf (id_of_mem_entriesAt entry listed) slot own

theorem sound_exifSlots (offset : Nat) :
    ∀ slot ∈ exifSlots order block chain offset, slot.Sound chain := by
  intro slot member
  obtain ⟨entry, listed, own⟩ := List.mem_flatMap.mp member
  split at own
  · exact sound_pointed (sound_leafSlots .interop) slot own
  · exact sound_slotsOf (id_of_mem_entriesAt entry listed) slot own

theorem sound_mainSlots {entries : List Entry} (bounds : ∀ entry ∈ entries, entry.id < 65536) :
    ∀ slot ∈ mainSlots order block chain entries, slot.Sound chain := by
  intro slot member
  obtain ⟨entry, listed, own⟩ := List.mem_flatMap.mp member
  split at own
  · exact sound_pointed sound_exifSlots slot own
  · split at own
    · exact sound_pointed (sound_leafSlots .gps) slot own
    · exact sound_slotsOf (bounds entry listed) slot own

theorem sound_chainSlots (first : Nat) :
    ∀ slot ∈ chainSlots order block first, slot.Sound 0 ∨ slot.Sound 1 := by
  intro slot member
  by_cases nothing : first = 0
  · simp [chainSlots, nothing] at member
  · rw [chainSlots, if_neg nothing] at member
    have bounds : ∀ entry ∈ (entriesAt order block first).1, entry.id < 65536 := id_of_mem_entriesAt
    generalize entriesAt order block first = found at member bounds
    obtain ⟨entries, rest⟩ := found
    rcases List.mem_append.mp member with own | later
    · exact .inl (sound_mainSlots bounds slot own)
    · split at later
      · simp at later
      · exact .inr (sound_mainSlots id_of_mem_entriesAt slot later)

end

def fieldsOf (block : Bytes) : List Field :=
  match header? block with
  | none => []
  | some header => (chainSlots header.order block header.first).filterMap Slot.field?

theorem sound_of_mem_fieldsOf {block : Bytes} :
    ∀ field ∈ fieldsOf block, field.Stored ∧ (field.chain = 0 ∨ field.chain = 1) := by
  intro field member
  unfold fieldsOf at member
  split at member
  · simp at member
  · obtain ⟨slot, listed, made⟩ := List.mem_filterMap.mp member
    obtain ⟨value, held, rfl⟩ := Option.map_eq_some_iff.mp made
    rcases sound_chainSlots _ slot listed with sound | sound
    · exact ⟨⟨sound.id, sound.value value held⟩, .inl sound.chain⟩
    · exact ⟨⟨sound.id, sound.value value held⟩, .inr sound.chain⟩

namespace Content

theorem fields_ofBlock (block : Bytes) :
    (ofBlock block).fields = (fieldsOf block).filter fun field =>
      field.chain = 0 || (ofBlock block).thumbnail.isSome := by
  unfold ofBlock fieldsOf
  cases header? block <;> rfl

theorem thumbnail_ofBlock_ne (block : Bytes) : (ofBlock block).thumbnail ≠ some [] := by
  have filled (offset length : Option Nat) : thumbnailIn? block offset length ≠ some [] := by
    unfold thumbnailIn?
    split
    · split
      · simp
      · rename_i some
        unfold slice?
        dsimp only
        split
        · rename_i whole
          intro nothing
          rw [Option.some.inj nothing] at whole
          exact some whole.symm
        · simp
    · simp
  unfold ofBlock
  split
  · simp [empty]
  · exact filled _ _

end Content

theorem Chained.sameRuns_fieldsOf {order : ByteOrder} {block : Bytes} {fields : List Field}
    {thumbnail : Option Bytes} {second : Nat} {places later : Places}
    (chained : Chained order block fields thumbnail second places later)
    (stored : ∀ field ∈ fields, field.Stored) :
    SameRuns Field.place (fieldsOf block) ((linkOf fields thumbnail 0).fields ++
      (linkOf fields thumbnail 1).fields ++ thumbnailFields thumbnail later.thumbnail) := by
  rw [fieldsOf, chained.header]
  exact chained.sameRuns_fields stored

end PhotoTags.Tiff
