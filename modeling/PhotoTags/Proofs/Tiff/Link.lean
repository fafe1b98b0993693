import PhotoTags.Proofs.Tiff.Directory

/-!
Links of the chain that were written into a block. The main directory of a link stands first, then
those that hang from it, then the long values of all of them and the thumbnail. Wherever the bytes of
a link stand, each directory is found where the one above says that it is.
-/

namespace PhotoTags.Tiff

structure Field.Stored (field : Field) : Prop where
  id : field.id < 65536
  value : field.value.Stored

/-- A directory whose bytes are a part of a block is found there. The length of the block bounds all
numbers that the directory holds. -/
theorem directoryAt_of_parts {order : ByteOrder} {block : Bytes} {offset position next : Nat}
    {items : List Item} (whole : ∀ item ∈ items, item.Whole) (short : block.length < 65536)
    (entries : Stands block offset (directoryBytes order position next items).1)
    (values : Stands block position (directoryBytes order position next items).2)
    (reached : position ≤ block.length) :
    DirectoryAt order block offset next (Item.sorted items) := by
  have size := length_directoryBytes_fst order position next items
  have filled : (directoryBytes order position next items).1 ≠ [] := by
    rw [← List.length_pos_iff, size, directorySize]
    omega
  have inside := entries.within filled
  have valuesInside := List.IsPrefix.length_le values
  rw [size, directorySize, Entry.size] at inside
  rw [List.length_drop] at valuesInside
  exact directoryAt_of_stands whole entries values (by omega) (by omega)

def pointerTo (order : ByteOrder) (id offset : Nat) (items : List Item) : List Item :=
  if items.isEmpty then [] else [Item.pointer order id offset]

theorem pointerTo_eq (order : ByteOrder) (id offset : Nat) (items : List Item) :
    pointerTo order id offset items =
      if items.length = 0 then [] else [Item.pointer order id offset] := by
  cases items <;> rfl

theorem length_pointerTo (order : ByteOrder) (id offset : Nat) (items : List Item) :
    (pointerTo order id offset items).length = if items.length = 0 then 0 else 1 := by
  cases items <;> rfl

theorem mem_pointerTo {order : ByteOrder} {id offset : Nat} {items : List Item} {item : Item} :
    item ∈ pointerTo order id offset items ↔
      items ≠ [] ∧ item = Item.pointer order id offset := by
  cases items <;> simp [pointerTo]

theorem whole_ofField (order : ByteOrder) {field : Field} (stored : field.Stored) :
    (Item.ofField order field).Whole :=
  ⟨stored.id, stored.value.length_bytes order⟩

theorem whole_pointer (order : ByteOrder) {id : Nat} (bound : id < 65536) (offset : Nat) :
    (Item.pointer order id offset).Whole :=
  ⟨bound, order.length_encode 4 offset⟩

structure Places where
  exif : Nat
  gps : Nat
  interop : Nat
  thumbnail : Nat

namespace Link

variable (link : Link) (order : ByteOrder)

def exifItems (places : Places) : List Item :=
  link.items order .exif ++
    pointerTo order interopPointer places.interop (link.items order .interop)

def thumbnailPointers (offset : Nat) : List Item :=
  match link.thumbnail with
  | none => []
  | some thumbnail => thumbnailItems order offset thumbnail

def mainItems (places : Places) : List Item :=
  link.items order .main ++ pointerTo order exifPointer places.exif (link.exifItems order places) ++
    pointerTo order gpsPointer places.gps (link.items order .gps) ++
    link.thumbnailPointers order places.thumbnail

structure At (block : Bytes) (start next : Nat) (places : Places) : Prop where
  main : DirectoryAt order block start next (Item.sorted (link.mainItems order places))
  exif : link.exifItems order places ≠ [] →
    DirectoryAt order block places.exif 0 (Item.sorted (link.exifItems order places))
  gps : link.items order .gps ≠ [] →
    DirectoryAt order block places.gps 0 (Item.sorted (link.items order .gps))
  interop : link.items order .interop ≠ [] →
    DirectoryAt order block places.interop 0 (Item.sorted (link.items order .interop))
  thumbnail : ∀ bytes, link.thumbnail = some bytes → Stands block places.thumbnail bytes
  apart : link.exifItems order places ≠ [] → places.exif ≠ places.gps
  before : (link.exifItems order places ≠ [] →
      places.exif < start + (link.bytes order start next).length) ∧
    (link.items order .gps ≠ [] → places.gps < start + (link.bytes order start next).length)
  bounds : places.exif < 65536 ∧ places.gps < 65536 ∧ places.interop < 65536 ∧
    places.thumbnail < 65536

theorem hangingSize_eq (position : Nat) (items : List Item) :
    hangingSize items.length = (hangingBytes order position items).1.length := by
  unfold hangingSize hangingBytes
  cases items with
  | nil => rfl
  | cons item rest => simp [length_directoryBytes_fst]

theorem hangingBytes_of_ne_nil (position : Nat) {items : List Item} (nonempty : items ≠ []) :
    hangingBytes order position items = directoryBytes order position 0 items := by
  simp [hangingBytes, nonempty]

theorem length_hangingBytes_pos (position : Nat) {items : List Item} (nonempty : items ≠ []) :
    0 < (hangingBytes order position items).1.length := by
  rw [hangingBytes_of_ne_nil order position nonempty, length_directoryBytes_fst, directorySize]
  omega

theorem hangingAt_of_parts {block : Bytes} {offset position : Nat} {items : List Item}
    (whole : ∀ item ∈ items, item.Whole) (short : block.length < 65536)
    (entries : Stands block offset (hangingBytes order position items).1)
    (values : Stands block position (hangingBytes order position items).2)
    (reached : position ≤ block.length) (nonempty : items ≠ []) :
    DirectoryAt order block offset 0 (Item.sorted items) := by
  rw [hangingBytes_of_ne_nil order position nonempty] at entries values
  exact directoryAt_of_parts whole short entries values reached

theorem length_exifItems (places : Places) :
    (link.exifItems order places).length = (link.items order .exif).length +
      if (link.items order .interop).length = 0 then 0 else 1 := by
  rw [exifItems, List.length_append, length_pointerTo]

theorem length_thumbnailPointers (offset : Nat) :
    (link.thumbnailPointers order offset).length = if link.thumbnail.isNone then 0 else 2 := by
  unfold thumbnailPointers
  cases link.thumbnail <;> rfl

theorem length_mainItems (places : Places) :
    (link.mainItems order places).length = (link.items order .main).length +
      (if (link.items order .exif).length +
        (if (link.items order .interop).length = 0 then 0 else 1) = 0 then 0 else 1) +
      (if (link.items order .gps).length = 0 then 0 else 1) +
      if link.thumbnail.isNone then 0 else 2 := by
  simp only [mainItems, List.length_append, length_pointerTo, length_exifItems,
    length_thumbnailPointers]

/-- The long values of the main directory do not depend on where the thumbnail is. -/
theorem mainValues_eq (places : Places) (offset position next : Nat) :
    (directoryBytes order position next
        (link.mainItems order { places with thumbnail := offset })).2 =
      (directoryBytes order position next (link.mainItems order places)).2 := by
  apply directoryBytes_snd_eq
  apply List.rel_append
  · exact List.forall₂_same.mpr fun item _ => ⟨rfl, fun _ => rfl⟩
  · unfold thumbnailPointers
    cases link.thumbnail with
    | none => exact .nil
    | some thumbnail =>
        exact .cons (Item.alike_pointer order ..) (.cons (Item.alike_pointer order ..) .nil)

/-- The parts of a link: the four directories, their long values in the same order, and the
thumbnail. Where the thumbnail is comes out last. -/
theorem bytes_eq (start next : Nat) :
    ∃ exifAt gpsAt interopAt mainValuesAt exifValuesAt gpsValuesAt interopValuesAt thumbnailAt,
      let places := Places.mk exifAt gpsAt interopAt
      let mainValues := (directoryBytes order mainValuesAt next (link.mainItems order (places 0))).2
      let main := (directoryBytes order mainValuesAt next
        (link.mainItems order (places thumbnailAt))).1
      let exif := hangingBytes order exifValuesAt (link.exifItems order (places 0))
      let gps := hangingBytes order gpsValuesAt (link.items order .gps)
      let interop := hangingBytes order interopValuesAt (link.items order .interop)
      link.bytes order start next =
          main ++ exif.1 ++ gps.1 ++ interop.1 ++ mainValues ++ exif.2 ++ gps.2 ++ interop.2 ++
            link.thumbnail.getD [] ∧
        exifAt = start + main.length ∧ gpsAt = exifAt + exif.1.length ∧
        interopAt = gpsAt + gps.1.length ∧ mainValuesAt = interopAt + interop.1.length ∧
        exifValuesAt = mainValuesAt + mainValues.length ∧
        gpsValuesAt = exifValuesAt + exif.2.length ∧
        interopValuesAt = gpsValuesAt + gps.2.length ∧
        thumbnailAt = interopValuesAt + interop.2.length := by
  simp only [length_directoryBytes_fst, ← hangingSize_eq, length_mainItems, length_exifItems]
  simp only [mainItems, pointerTo_eq, length_exifItems]
  simp only [exifItems, thumbnailPointers, pointerTo_eq]
  unfold bytes
  simp only [List.isEmpty_iff_length_eq_zero]
  exact ⟨_, _, _, _, _, _, _, _, rfl, rfl, rfl, rfl, rfl, rfl, rfl, rfl, rfl⟩

theorem length_mainItems_le (places : Places) (start next : Nat) :
    directorySize (link.mainItems order places).length ≤ (link.bytes order start next).length := by
  obtain ⟨_, _, _, _, _, _, _, _, parts, -⟩ := link.bytes_eq order start next
  rw [parts]
  simp only [List.length_append, length_directoryBytes_fst, length_mainItems]
  omega

variable {link order}

theorem mem_items {directory : Directory} {item : Item} :
    item ∈ link.items order directory ↔
      ∃ field ∈ link.fields, field.directory = directory ∧ Item.ofField order field = item := by
  simp [items, and_assoc]

section

variable (stored : ∀ field ∈ link.fields, field.Stored)

include stored

theorem whole_items (directory : Directory) : ∀ item ∈ link.items order directory, item.Whole := by
  intro item member
  obtain ⟨field, listed, _, rfl⟩ := mem_items.mp member
  exact whole_ofField order (stored field listed)

theorem whole_exifItems (places : Places) : ∀ item ∈ link.exifItems order places, item.Whole := by
  intro item member
  rcases List.mem_append.mp member with own | pointer
  · exact whole_items stored .exif item own
  · rw [(mem_pointerTo.mp pointer).2]
    exact whole_pointer order (by decide) _

theorem whole_mainItems (places : Places) : ∀ item ∈ link.mainItems order places, item.Whole := by
  intro item member
  simp only [mainItems, List.mem_append, mem_pointerTo] at member
  rcases member with ((own | ⟨_, rfl⟩) | ⟨_, rfl⟩) | thumbnail
  · exact whole_items stored .main item own
  · exact whole_pointer order (by decide) _
  · exact whole_pointer order (by decide) _
  · unfold thumbnailPointers at thumbnail
    split at thumbnail
    · simp at thumbnail
    · simp only [thumbnailItems, List.mem_cons, List.not_mem_nil, or_false] at thumbnail
      rcases thumbnail with rfl | rfl
      · exact whole_pointer order (by decide) _
      · exact whole_pointer order (by decide) _

theorem at_of_stands {block : Bytes} {start next : Nat} (short : block.length < 65536)
    (stands : Stands block start (link.bytes order start next)) :
    ∃ places, link.At order block start next places := by
  obtain ⟨exifAt, gpsAt, interopAt, mainValuesAt, exifValuesAt, gpsValuesAt, interopValuesAt,
    thumbnailAt, parts, exifIs, gpsIs, interopIs, mainValuesIs, exifValuesIs, gpsValuesIs,
    interopValuesIs, thumbnailIs⟩ := link.bytes_eq order start next
  have values := link.mainValues_eq order ⟨exifAt, gpsAt, interopAt, thumbnailAt⟩ 0 mainValuesAt next
  dsimp only at values parts
  rw [values] at parts exifValuesIs
  have length := congrArg List.length parts
  have filled := length_directoryBytes_fst order mainValuesAt next
    (link.mainItems order ⟨exifAt, gpsAt, interopAt, thumbnailAt⟩)
  rw [directorySize] at filled
  simp only [List.length_append] at length
  have inside := stands.within (List.length_pos_iff.mp (by omega))
  rw [parts] at stands
  -- Each part of the link stands where the parts before it end.
  simp only [List.append_assoc, stands_append_iff, ← exifIs, ← gpsIs, ← interopIs, ← mainValuesIs,
    ← exifValuesIs, ← gpsValuesIs, ← interopValuesIs, ← thumbnailIs] at stands
  obtain ⟨main, exif, gps, interop, mainValues, exifValues, gpsValues, interopValues, thumbnail⟩ :=
    stands
  refine ⟨⟨exifAt, gpsAt, interopAt, thumbnailAt⟩, ?_, ?_, ?_, ?_, ?_, ?_, ⟨?_, ?_⟩, ?_⟩
  · exact directoryAt_of_parts (whole_mainItems stored _) short main mainValues (by omega)
  · exact hangingAt_of_parts order (whole_exifItems stored _) short exif exifValues (by omega)
  · exact hangingAt_of_parts order (whole_items stored .gps) short gps gpsValues (by omega)
  · exact hangingAt_of_parts order (whole_items stored .interop) short interop interopValues (by omega)
  · intro bytes held
    rwa [held] at thumbnail
  · intro nonempty
    have := length_hangingBytes_pos order exifValuesAt nonempty
    simp only [exifItems] at this gpsIs ⊢
    omega
  · intro nonempty
    have := length_hangingBytes_pos order exifValuesAt nonempty
    simp only [exifItems] at this gpsIs length ⊢
    omega
  · intro nonempty
    have := length_hangingBytes_pos order gpsValuesAt nonempty
    dsimp only
    omega
  · dsimp only
    omega

end

end Link

end PhotoTags.Tiff
