import PhotoTags.Calendar.Timestamp
import PhotoTags.Calendar.Zone
import PhotoTags.Decimal.Text
import PhotoTags.Tiff.Entry

/-!
The data of entries and the texts that show them. The dates of an image are read as local times,
with the offset from UTC that the image gives for them; signed numbers and floating-point numbers
are read one at a time only.
-/

namespace PhotoTags.Tiff

inductive Datum
  | text (characters : List Char)
  | time (clock : LocalTime) (offset : Option Int)
  | numbers (type : FieldType) (values : List Nat)
  | signed (value : Int)
  | ratios (isSigned : Bool) (values : List (Nat × Nat))
  | float (value : Decimal.Binary) (format : Decimal.Format)
  deriving DecidableEq, Repr

def dateIds : List Nat := [0x0132, 0x9003, 0x9004]

def twosComplement (width number : Nat) : Int :=
  if number < Nat.pow 2 (8 * width - 1) then number else (number : Int) - Nat.pow 2 (8 * width)

/-- The text that bytes hold: from the first one that is not NUL up to the next that is. -/
def heldText (bytes : Bytes) : List Char :=
  Text.ofBytes ((bytes.dropWhile (· == 0)).takeWhile (· != 0))

/-- An offset from UTC may be written with a colon, with blanks or with neither. -/
def looseOffset? (text : List Char) : Option Int :=
  match Calendar.offsetWith (fun rest => some (rest.dropWhile fun c => c == ':' || Text.isBlank c))
      (Calendar.skipBlanks text) with
  | some (offset, []) => some offset
  | _ => none

/-- The local time and the offset in minutes of a date value followed by the text of a time zone,
if the time is an instant in the range of dates. -/
def zoned? (text zone : List Char) : Option (LocalTime × Int) := do
  let (clock, rest) ← Calendar.Layout.colons.timeAt (text ++ ' ' :: zone)
  let offset ← looseOffset? rest
  if clock.IsReal ∧ ((Zone.fixed (offset * 60)).earliest clock.seconds).isSome then
    some (clock, offset)
  else none

/-- The time that a date value denotes, with its offset from UTC where the block's time zone gives
one. -/
def dated? (text : List Char) (zone : Option (List Char)) : Option Datum :=
  match zone.bind (zoned? text) with
  | some (clock, offset) => some (.time clock (some offset))
  | none => (Calendar.Layout.colons.read? text).map fun clock => .time clock none

def pairsOf : List Nat → List (Nat × Nat)
  | numerator :: denominator :: rest => (numerator, denominator) :: pairsOf rest
  | _ => []

def Datum.ofValue? (order : ByteOrder) (zone : Option (List Char)) (id : Nat) (type : FieldType)
    (count : Nat) (bytes : Bytes) : Option Datum :=
  let numbers := numbersOf order type.width (count * type.arity) bytes
  if count = 0 then none
  else if dateIds.contains id then dated? (heldText bytes) zone
  else
    match type with
    | .ascii => some (.text (heldText bytes))
    | .byte | .short | .long | .undefined => some (.numbers type numbers)
    | .rational => some (.ratios false (pairsOf numbers))
    | .signedRational => some (.ratios true (pairsOf numbers))
    | .signedByte | .signedShort | .signedLong =>
        match numbers with
        | [number] => some (.signed (twosComplement type.width number))
        | _ => none
    | .float =>
        match numbers with
        | [number] => some (.float (Decimal.single.decode number) Decimal.single)
        | _ => none
    | .double =>
        match numbers with
        | [number] => some (.float (Decimal.double.decode number) Decimal.double)
        | _ => none

namespace Datum

def listText (name : String) (most : Nat) (elements : List (List Char)) : List Char :=
  let shown := elements.take most ++ if most < elements.length then [['.', '.', '.']] else []
  name.toList ++ '[' :: [',', ' '].intercalate shown ++ [']']

def elementText (number : Nat) : List Char :=
  '0' :: 'x' :: Text.padStart 2 '0' (Text.hexadecimal number)

def numbersText (type : FieldType) (values : List Nat) : List Char :=
  match type, values with
  | .undefined, values => listText "Undefined" 8 (values.map elementText)
  | _, [value] => Text.decimal value
  | .byte, values => listText "U8Array" 8 (values.map elementText)
  | .short, values => listText "U16Array" 8 (values.map elementText)
  | _, values => listText "U32Array" 8 (values.map elementText)

def quotient (numerator denominator : Int) : Decimal.Binary :=
  let negative := numerator < 0
  if denominator = 0 then
    if numerator = 0 then .nan else .infinite negative
  else
    match Decimal.double.decode
        (Decimal.double.nearest numerator.natAbs denominator.natAbs) with
    | .finite _ significand exponent =>
        .finite (negative != (denominator < 0 : Bool)) significand exponent
    | other => other

def ratioText (isSigned : Bool) (ratio : Nat × Nat) : List Char :=
  let number := fun word => if isSigned then twosComplement 4 word else (word : Int)
  Text.signedDecimal (number ratio.1) ++ '/' :: Text.signedDecimal (number ratio.2) ++
    [' ', '('] ++ Decimal.fixedText 4 (quotient (number ratio.1) (number ratio.2)) ++ [')']

def ratiosText (isSigned : Bool) (values : List (Nat × Nat)) : List Char :=
  match values with
  | [value] => ratioText isSigned value
  | values =>
      listText (if isSigned then "IRationalArray" else "URationalArray") 3
        (values.map (ratioText isSigned))

def shown : Datum → List Char
  | text characters => characters
  | time clock none => Calendar.Layout.dashes.write clock
  | time clock (some offset) => Calendar.timestampText clock offset
  | numbers type values => numbersText type values
  | signed value => Text.signedDecimal value
  | ratios isSigned values => ratiosText isSigned values
  | float value format => Decimal.plainText format value

def word? : Datum → Option Nat
  | numbers .short [number] => some number
  | numbers .long [number] => some number
  | _ => none

def text? : Datum → Option (List Char)
  | text characters => some characters
  | _ => none

end Datum

end PhotoTags.Tiff
