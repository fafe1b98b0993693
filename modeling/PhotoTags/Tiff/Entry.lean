import PhotoTags.Tiff.Value

/-!
The header of a block and the entries of its directories, as they stand in the bytes: twelve bytes
each, with a number, a type, a count and four bytes that hold the value or its offset.
-/

namespace PhotoTags.Tiff

structure Entry where
  id : Nat
  typeCode : Nat
  count : Nat
  field : Bytes
  deriving DecidableEq, Repr

structure Header where
  order : ByteOrder
  first : Nat
  deriving DecidableEq, Repr

def ByteOrder.mark : ByteOrder → Bytes
  | big => [0x4D, 0x4D]
  | little => [0x49, 0x49]

def ByteOrder.ofMark? (mark : Bytes) : Option ByteOrder :=
  if mark = big.mark then some big else if mark = little.mark then some little else none

def header? (block : Bytes) : Option Header :=
  match ByteOrder.ofMark? (block.take 2) with
  | none => none
  | some order =>
      match number? order block 2 2, number? order block 4 4 with
      | some magic, some first => if magic = 42 then some ⟨order, first⟩ else none
      | _, _ => none

namespace Entry

def size : Nat := 12

def ofBytes (order : ByteOrder) (bytes : Bytes) : Entry :=
  ⟨order.decode (bytes.take 2), order.decode ((bytes.drop 2).take 2),
    order.decode ((bytes.drop 4).take 4), (bytes.drop 8).take 4⟩

def offset (order : ByteOrder) (entry : Entry) : Nat :=
  order.decode entry.field

/-- The bytes of the value of a known type: in the entry if they fit there, else at its offset. -/
def valueBytes? (order : ByteOrder) (block : Bytes) (type : FieldType) (entry : Entry) :
    Option Bytes :=
  let length := type.size * entry.count
  if length ≤ 4 then some (entry.field.take length)
  else slice? block (entry.offset order) length

def hasKnownType (entry : Entry) : Bool :=
  (FieldType.ofCode? entry.typeCode).isSome

def value? (order : ByteOrder) (block : Bytes) (entry : Entry) : Option Value :=
  match FieldType.ofCode? entry.typeCode with
  | none => none
  | some type => (entry.valueBytes? order block type).map (Value.ofBytes order type entry.count)

end Entry

/-- Up to `count` entries, as far as the bytes go, and the bytes behind them. -/
def entriesOf (order : ByteOrder) : Nat → Bytes → List Entry × Bytes
  | 0, bytes => ([], bytes)
  | count + 1, bytes =>
      if (bytes.take Entry.size).length = Entry.size then
        let rest := entriesOf order count (bytes.drop Entry.size)
        (Entry.ofBytes order bytes :: rest.1, rest.2)
      else ([], bytes)

end PhotoTags.Tiff
