import PhotoTags.Tiff.Entry

/-!
The fields of a block that are kept when it is written again. Reading goes as far as it can: a
directory that breaks off keeps the fields before the break, and a value outside the block is left
out. A field of an unknown type is not kept, but it hides the earlier ones of its number. A block
starts a chain of directories; the first describes the image, the second its thumbnail, and no later
one is kept.
-/

namespace PhotoTags.Tiff

/-- A kind of directory. The last three hang from an entry of another one. -/
inductive Directory
  | main
  | exif
  | gps
  | interop
  deriving DecidableEq, Repr

def exifPointer : Nat := 0x8769

def gpsPointer : Nat := 0x8825

def interopPointer : Nat := 0xA005

def thumbnailOffset : Nat := 0x0201

def thumbnailLength : Nat := 0x0202

/-- A value with its directory, its number in there and the place of the directory in the chain. -/
structure Field where
  directory : Directory
  id : Nat
  chain : Nat
  value : Value
  deriving DecidableEq, Repr

/-- A field as it is read, without a value if its type is not known. -/
structure Slot where
  directory : Directory
  id : Nat
  chain : Nat
  value : Option Value
  deriving DecidableEq, Repr

def Slot.field? (slot : Slot) : Option Field :=
  slot.value.map fun value => ⟨slot.directory, slot.id, slot.chain, value⟩

structure Content where
  order : ByteOrder
  fields : List Field
  thumbnail : Option Bytes
  deriving DecidableEq, Repr

/-- The entries of the directory at an offset, and the bytes behind the last one if it is whole. -/
def entriesAt (order : ByteOrder) (block : Bytes) (offset : Nat) : List Entry × Option Bytes :=
  match number? order block offset 2 with
  | none => ([], none)
  | some count =>
      let (entries, rest) := entriesOf order count (block.drop (offset + 2))
      (entries, if entries.length = count then some rest else none)

section

variable (order : ByteOrder) (block : Bytes) (chain : Nat)

def slotsOf (directory : Directory) (entry : Entry) : List Slot :=
  let value := entry.value? order block
  if entry.hasKnownType && value.isNone then [] else [⟨directory, entry.id, chain, value⟩]

def pointed (slotsAt : Nat → List Slot) (entry : Entry) : List Slot :=
  match (entry.value? order block).bind Value.firstNumber? with
  | some offset => slotsAt offset
  | none => []

def leafSlots (directory : Directory) (offset : Nat) : List Slot :=
  (entriesAt order block offset).1.flatMap (slotsOf order block chain directory)

def exifSlots (offset : Nat) : List Slot :=
  (entriesAt order block offset).1.flatMap fun entry =>
    if entry.id = interopPointer then
      pointed order block (leafSlots order block chain .interop) entry
    else slotsOf order block chain .exif entry

def mainSlots (entries : List Entry) : List Slot :=
  entries.flatMap fun entry =>
    if entry.id = exifPointer then pointed order block (exifSlots order block chain) entry
    else if entry.id = gpsPointer then
      pointed order block (leafSlots order block chain .gps) entry
    else slotsOf order block chain .main entry

end

def chainSlots (order : ByteOrder) (block : Bytes) (first : Nat) : List Slot :=
  if first = 0 then []
  else
    let (entries, rest) := entriesAt order block first
    let second := (rest.bind fun rest => number? order rest 0 4).getD 0
    mainSlots order block 0 entries ++
      if second = 0 then [] else mainSlots order block 1 (entriesAt order block second).1

/-- The first number of the last slot with a number in the second directory. -/
def secondNumber? (slots : List Slot) (id : Nat) : Option Nat :=
  let last := (slots.filter fun slot =>
    slot.directory = .main ∧ slot.chain = 1 ∧ slot.id = id).getLast?
  (last.bind (·.value)).bind Value.firstNumber?

def thumbnailIn? (block : Bytes) (offset length : Option Nat) : Option Bytes :=
  match offset, length with
  | some offset, some length => if length = 0 then none else slice? block offset length
  | _, _ => none

namespace Content

def empty : Content := ⟨.big, [], none⟩

/-- What is kept of a block; nothing if it does not start as one. The fields of the second
directory are kept along with the thumbnail. -/
def ofBlock (block : Bytes) : Content :=
  match header? block with
  | none => empty
  | some header =>
      let slots := chainSlots header.order block header.first
      let thumbnail := thumbnailIn? block (secondNumber? slots thumbnailOffset)
        (secondNumber? slots thumbnailLength)
      let fields := slots.filterMap Slot.field?
      ⟨header.order, fields.filter fun field => field.chain = 0 || thumbnail.isSome, thumbnail⟩

end Content

end PhotoTags.Tiff
