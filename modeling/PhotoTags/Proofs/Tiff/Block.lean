import PhotoTags.Proofs.Tiff.Link

/-!
Written blocks. Behind the header stands the first link of the chain, and behind that the second, if
there is one. Fields about the image itself, in its own directory and in those of the exposure and of
the position, make a block of three directories.
-/

namespace PhotoTags.Tiff

theorem header?_headerBytes (order : ByteOrder) (rest : Bytes) :
    header? (headerBytes order ++ rest) = some ⟨order, headerSize⟩ := by
  cases order <;> rfl

theorem ne_nil_of_header? {block : Bytes} {header : Header} (read : header? block = some header) :
    block ≠ [] := by
  rintro rfl
  simp [header?, ByteOrder.ofMark?, ByteOrder.mark] at read

theorem length_headerBytes (order : ByteOrder) : (headerBytes order).length = headerSize := by
  cases order <;> rfl

theorem Link.length_bytes_eq (link : Link) (order : ByteOrder) (start next : Nat) :
    (link.bytes order start next).length = (link.bytes order start 0).length := by
  unfold Link.bytes
  simp only [List.length_append, length_directoryBytes_fst]
  rfl

structure Chained (order : ByteOrder) (block : Bytes) (fields : List Field) (thumbnail : Option Bytes)
    (second : Nat) (places later : Places) : Prop where
  short : block.length < 65536
  header : header? block = some ⟨order, headerSize⟩
  first : (linkOf fields thumbnail 0).At order block headerSize second places
  last : (linkOf fields thumbnail 1).isEmpty = true → second = 0
  next : (linkOf fields thumbnail 1).isEmpty = false →
    (linkOf fields thumbnail 1).At order block second 0 later ∧ second < 65536 ∧
      headerSize + ((linkOf fields thumbnail 0).bytes order headerSize second).length ≤ second

theorem mem_linkOf {fields : List Field} {thumbnail : Option Bytes} {chain : Nat} {field : Field} :
    field ∈ (linkOf fields thumbnail chain).fields ↔
      field ∈ fields ∧ field.chain = chain ∧ isWritable field = true := by
  simp [linkOf]

theorem stored_linkOf {fields : List Field} (stored : ∀ field ∈ fields, field.Stored)
    (thumbnail : Option Bytes) (chain : Nat) :
    ∀ field ∈ (linkOf fields thumbnail chain).fields, field.Stored :=
  fun field member => stored field (mem_linkOf.mp member).1

theorem chained_of_blockBytes? {order : ByteOrder} {fields : List Field} {thumbnail : Option Bytes}
    {block : Bytes} (stored : ∀ field ∈ fields, field.Stored)
    (encoded : blockBytes? order fields thumbnail = some block) (short : block.length < 65536) :
    ∃ second places later, Chained order block fields thumbnail second places later := by
  unfold blockBytes? at encoded
  dsimp only at encoded
  split at encoded
  · simp at encoded
  · split at encoded
    · rename_i _ single
      have split := (Option.some.inj encoded).symm
      have stands := stands_of_eq split
      rw [stands_append_iff, length_headerBytes, Nat.zero_add] at stands
      obtain ⟨places, first⟩ := Link.at_of_stands (stored_linkOf stored thumbnail 0) short stands.2
      refine ⟨0, places, places, short, ?_, first, fun _ => rfl, fun double => ?_⟩
      · rw [split]
        exact header?_headerBytes order _
      · rw [single] at double
        simp at double
    · rename_i _ double
      have split := (Option.some.inj encoded).symm
      generalize place : headerSize + ((linkOf fields thumbnail 0).bytes order headerSize 0).length +
        (headerSize + ((linkOf fields thumbnail 0).bytes order headerSize 0).length) % 2 =
          second at split
      have stands := stands_of_eq split
      have length := congrArg List.length split
      have size := (linkOf fields thumbnail 0).length_bytes_eq order headerSize second
      simp only [List.length_append, Item.padding, List.length_replicate, length_headerBytes,
        size] at length
      simp only [stands_append_iff, List.length_append, Item.padding, List.length_replicate,
        length_headerBytes, Nat.zero_add, size, place] at stands
      obtain ⟨places, first⟩ :=
        Link.at_of_stands (stored_linkOf stored thumbnail 0) short stands.1.1.2
      obtain ⟨later, next⟩ := Link.at_of_stands (stored_linkOf stored thumbnail 1) short stands.2
      refine ⟨second, places, later, short, ?_, first, fun single => absurd single double,
        fun _ => ⟨next, ?_⟩⟩
      · rw [split, List.append_assoc, List.append_assoc]
        exact header?_headerBytes order _
      · omega

structure Field.Sound (field : Field) : Prop where
  chain : field.chain = 0
  id : 0 < field.id ∧ field.id < 65536
  noPointer : isPointerId field.id = false
  noInterop : field.directory ≠ .interop ∧ field.id ≠ interopPointer
  writable : isWritable field = true
  value : field.value.Sound

theorem Field.Sound.stored {field : Field} (sound : field.Sound) : field.Stored :=
  ⟨sound.id.2, sound.value.toStored⟩

def itemsIn (order : ByteOrder) (directory : Directory) (fields : List Field) : List Item :=
  (fields.filter (·.directory = directory)).map (Item.ofField order)

theorem mem_itemsIn {order : ByteOrder} {directory : Directory} {fields : List Field} {item : Item} :
    item ∈ itemsIn order directory fields ↔
      ∃ field ∈ fields, field.directory = directory ∧ Item.ofField order field = item := by
  simp [itemsIn, and_assoc]

def mainItems (order : ByteOrder) (fields : List Field) (exifAt gpsAt : Nat) : List Item :=
  itemsIn order .main fields ++ pointerTo order exifPointer exifAt (itemsIn order .exif fields) ++
    pointerTo order gpsPointer gpsAt (itemsIn order .gps fields)

structure Laid (order : ByteOrder) (block : Bytes) (fields : List Field) (exifAt gpsAt : Nat) :
    Prop where
  header : header? block = some ⟨order, headerSize⟩
  main : DirectoryAt order block headerSize 0 (Item.sorted (mainItems order fields exifAt gpsAt))
  exif : itemsIn order .exif fields ≠ [] →
    DirectoryAt order block exifAt 0 (Item.sorted (itemsIn order .exif fields))
  gps : itemsIn order .gps fields ≠ [] →
    DirectoryAt order block gpsAt 0 (Item.sorted (itemsIn order .gps fields))
  apart : itemsIn order .exif fields ≠ [] → exifAt ≠ gpsAt
  bounds : exifAt < 65536 ∧ gpsAt < 65536

section

variable {fields : List Field} (sound : ∀ field ∈ fields, field.Sound)

include sound

theorem linkOf_sound : linkOf fields none 0 = ⟨fields, none⟩ ∧ linkOf fields none 1 = ⟨[], none⟩ := by
  constructor
  · have all : fields.filter (fun field => field.chain = 0 && isWritable field) = fields := by
      refine List.filter_eq_self.mpr fun field member => ?_
      simp [(sound field member).chain, (sound field member).writable]
    simp [linkOf, all]
  · have nothing : fields.filter (fun field => field.chain = 1 && isWritable field) = [] := by
      refine List.filter_eq_nil_iff.mpr fun field member => ?_
      simp [(sound field member).chain]
    simp [linkOf, nothing]

theorem exifItems_sound (order : ByteOrder) (places : Places) :
    (Link.mk fields none).exifItems order places = itemsIn order .exif fields := by
  have nothing : fields.filter (·.directory = .interop) = [] := by
    refine List.filter_eq_nil_iff.mpr fun field member => ?_
    simp [(sound field member).noInterop.1]
  simp [Link.exifItems, Link.items, nothing, pointerTo, itemsIn]

theorem mainItems_sound (order : ByteOrder) (places : Places) :
    (Link.mk fields none).mainItems order places =
      mainItems order fields places.exif places.gps := by
  rw [Link.mainItems, exifItems_sound sound, Link.thumbnailPointers, List.append_nil]
  rfl

theorem laid_of_blockBytes? {order : ByteOrder} {block : Bytes}
    (encoded : blockBytes? order fields none = some block) (short : block.length < 65536) :
    ∃ exifAt gpsAt, Laid order block fields exifAt gpsAt := by
  obtain ⟨second, places, later, chained⟩ :=
    chained_of_blockBytes? (fun field member => (sound field member).stored) encoded short
  obtain ⟨firstIs, secondIs⟩ := linkOf_sound sound
  have single := chained.last (by rw [secondIs]; rfl)
  have first := chained.first
  rw [firstIs, single] at first
  have main := first.main
  have exif := first.exif
  have apart := first.apart
  rw [mainItems_sound sound] at main
  rw [exifItems_sound sound] at exif apart
  exact ⟨places.exif, places.gps, chained.header, main, exif, first.gps, apart, first.bounds.1,
    first.bounds.2.1⟩

end

end PhotoTags.Tiff
