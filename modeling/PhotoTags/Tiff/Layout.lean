import PhotoTags.Tiff.Content

/-!
The bytes of a block with given fields. Behind the header stands the first directory of the chain
with those that hang from it, then their long values; then, at an even offset, the second one in the
same way, and the thumbnail. Entries are in the order of their numbers, and long values start at
even offsets.
-/

namespace PhotoTags.Tiff

structure Item where
  id : Nat
  type : FieldType
  count : Nat
  bytes : Bytes
  deriving DecidableEq, Repr

namespace Item

def ofField (order : ByteOrder) (field : Field) : Item :=
  ⟨field.id, field.value.type, field.value.count, field.value.bytes order⟩

def pointer (order : ByteOrder) (id number : Nat) : Item :=
  ⟨id, .long, 1, order.encode 4 number⟩

/-- Puts an item before the first one whose number is not smaller. -/
def insert (item : Item) : List Item → List Item
  | [] => [item]
  | next :: rest => if item.id ≤ next.id then item :: next :: rest else next :: insert item rest

def sorted (items : List Item) : List Item :=
  items.foldr insert []

def padding (offset : Nat) : Bytes :=
  List.replicate (offset % 2) 0

/-- The bytes of the entry, and those of its value that stand at `position` or right behind it. -/
def place (order : ByteOrder) (position : Nat) (item : Item) : Bytes × Bytes :=
  let head := order.encode 2 item.id ++ order.encode 2 item.type.code ++ order.encode 4 item.count
  if item.bytes.length ≤ 4 then
    (head ++ item.bytes ++ List.replicate (4 - item.bytes.length) 0, [])
  else
    (head ++ order.encode 4 (position + position % 2), padding position ++ item.bytes)

def placeAll (order : ByteOrder) : Nat → List Item → Bytes × Bytes
  | _, [] => ([], [])
  | position, item :: rest =>
      let first := place order position item
      let others := placeAll order (position + first.2.length) rest
      (first.1 ++ others.1, first.2 ++ others.2)

end Item

/-- Numbers of entries of a main directory that the layout writes itself, or that describe image
data outside the block. -/
def layoutIds : List Nat :=
  [exifPointer, gpsPointer, 0x0111, 0x0117, 0x0144, 0x0145, thumbnailOffset, thumbnailLength]

/-- The layout writes pointers itself, so fields with their numbers are left out. -/
def isWritable (field : Field) : Bool :=
  match field.directory with
  | .main => !layoutIds.contains field.id
  | .exif => field.id != interopPointer
  | _ => true

/-- The size of a directory of so many entries, none taking no space. -/
def directorySize (entries : Nat) : Nat :=
  2 + Entry.size * entries + 4

/-- A directory's bytes and those of its long values, which stand from `position` on. -/
def directoryBytes (order : ByteOrder) (position next : Nat) (items : List Item) : Bytes × Bytes :=
  let placed := Item.placeAll order position (Item.sorted items)
  (order.encode 2 items.length ++ placed.1 ++ order.encode 4 next, placed.2)

/-- One directory of the chain with those that hang from it, at an offset of the block. -/
structure Link where
  fields : List Field
  thumbnail : Option Bytes
  deriving DecidableEq, Repr

namespace Link

def items (link : Link) (order : ByteOrder) (directory : Directory) : List Item :=
  (link.fields.filter (·.directory = directory)).map (Item.ofField order)

def isEmpty (link : Link) : Bool :=
  link.fields.isEmpty && link.thumbnail.isNone

def thumbnailItems (order : ByteOrder) (position : Nat) (thumbnail : Bytes) : List Item :=
  [Item.pointer order thumbnailOffset position,
    Item.pointer order thumbnailLength thumbnail.length]

def hangingBytes (order : ByteOrder) (position : Nat) (items : List Item) : Bytes × Bytes :=
  if items.isEmpty then ([], []) else directoryBytes order position 0 items

def hangingSize (entries : Nat) : Nat :=
  if entries = 0 then 0 else directorySize entries

def bytes (link : Link) (order : ByteOrder) (start next : Nat) : Bytes :=
  let interop := link.items order .interop
  let gps := link.items order .gps
  let exifCount := (link.items order .exif).length + if interop.isEmpty then 0 else 1
  let mainCount := (link.items order .main).length + (if exifCount = 0 then 0 else 1) +
    (if gps.isEmpty then 0 else 1) + if link.thumbnail.isNone then 0 else 2
  let exifAt := start + directorySize mainCount
  let gpsAt := exifAt + hangingSize exifCount
  let interopAt := gpsAt + hangingSize gps.length
  let valuesAt := interopAt + hangingSize interop.length
  let exif := link.items order .exif ++
    if interop.isEmpty then [] else [Item.pointer order interopPointer interopAt]
  let main := fun thumbnailAt => link.items order .main ++
    (if exifCount = 0 then [] else [Item.pointer order exifPointer exifAt]) ++
    (if gps.isEmpty then [] else [Item.pointer order gpsPointer gpsAt]) ++
    match link.thumbnail with
    | none => []
    | some thumbnail => thumbnailItems order thumbnailAt thumbnail
  let mainValues := (directoryBytes order valuesAt next (main 0)).2
  let exifValuesAt := valuesAt + mainValues.length
  let exifPart := hangingBytes order exifValuesAt exif
  let gpsValuesAt := exifValuesAt + exifPart.2.length
  let gpsPart := hangingBytes order gpsValuesAt gps
  let interopValuesAt := gpsValuesAt + gpsPart.2.length
  let interopPart := hangingBytes order interopValuesAt interop
  let thumbnailAt := interopValuesAt + interopPart.2.length
  (directoryBytes order valuesAt next (main thumbnailAt)).1 ++ exifPart.1 ++ gpsPart.1 ++
    interopPart.1 ++ mainValues ++ exifPart.2 ++ gpsPart.2 ++ interopPart.2 ++
    link.thumbnail.getD []

end Link

def headerSize : Nat := 8

def headerBytes (order : ByteOrder) : Bytes :=
  order.mark ++ order.encode 2 42 ++ order.encode 4 headerSize

def linkOf (fields : List Field) (thumbnail : Option Bytes) (chain : Nat) : Link :=
  ⟨fields.filter fun field => field.chain = chain && isWritable field,
    if chain = 1 then thumbnail else none⟩

/-- The block with these fields and this thumbnail; the first directory must not be empty. -/
def blockBytes? (order : ByteOrder) (fields : List Field) (thumbnail : Option Bytes) :
    Option Bytes :=
  let first := linkOf fields thumbnail 0
  let second := linkOf fields thumbnail 1
  if first.isEmpty then none
  else if second.isEmpty then some (headerBytes order ++ first.bytes order headerSize 0)
  else
    let size := headerSize + (first.bytes order headerSize 0).length
    let secondAt := size + size % 2
    some (headerBytes order ++ first.bytes order headerSize secondAt ++ Item.padding size ++
      second.bytes order secondAt 0)

end PhotoTags.Tiff
