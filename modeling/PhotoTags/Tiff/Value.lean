import PhotoTags.Tiff.Word

/-!
The values of fields: a type and numbers of that type's width. Two numbers make one rational.
Texts are bytes with a NUL after each part.
-/

namespace PhotoTags.Tiff

inductive FieldType
  | byte
  | ascii
  | short
  | long
  | rational
  | signedByte
  | undefined
  | signedShort
  | signedLong
  | signedRational
  | float
  | double
  deriving DecidableEq, Repr

namespace FieldType

def code : FieldType → Nat
  | byte => 1
  | ascii => 2
  | short => 3
  | long => 4
  | rational => 5
  | signedByte => 6
  | undefined => 7
  | signedShort => 8
  | signedLong => 9
  | signedRational => 10
  | float => 11
  | double => 12

def ofCode? (code : Nat) : Option FieldType :=
  [byte, ascii, short, long, rational, signedByte, undefined, signedShort, signedLong,
    signedRational, float, double].find? (·.code == code)

def width : FieldType → Nat
  | byte | ascii | signedByte | undefined => 1
  | short | signedShort => 2
  | long | signedLong | rational | signedRational | float => 4
  | double => 8

/-- The numbers of one element of a value. -/
def arity : FieldType → Nat
  | rational | signedRational => 2
  | _ => 1

def size (type : FieldType) : Nat :=
  type.width * type.arity

end FieldType

structure Value where
  type : FieldType
  numbers : List Nat
  deriving DecidableEq, Repr

/-- A text has a NUL after each of its parts; one at the end may be missing where it is read. -/
def withFinalNul (bytes : List Nat) : List Nat :=
  match bytes.getLast? with
  | none => []
  | some last => if last = 0 then bytes else bytes ++ [0]

namespace Value

def count (value : Value) : Nat :=
  value.numbers.length / value.type.arity

def ofBytes (order : ByteOrder) (type : FieldType) (count : Nat) (bytes : Bytes) : Value :=
  let numbers := numbersOf order type.width (count * type.arity) bytes
  ⟨type, if type = .ascii then withFinalNul numbers else numbers⟩

def bytes (order : ByteOrder) (value : Value) : Bytes :=
  value.numbers.flatMap (order.encode value.type.width)

def text (characters : List Char) : Value :=
  ⟨.ascii, (Text.utf8 characters).map UInt8.toNat ++ [0]⟩

def firstNumber? (value : Value) : Option Nat :=
  match value.type with
  | .byte | .short | .long => value.numbers.head?
  | _ => none

end Value

end PhotoTags.Tiff
