import PhotoTags.Calendar.Basic
import PhotoTags.Text.Numeral

/-!
Dates and times of day in a fixed layout, read and written. Reading is lenient about blanks before
numbers and about their leading zeros; writing is not.
-/

namespace PhotoTags.Calendar

/-- How a date and a time of day are written: the mark between the parts of the date, and what
stands between the date and the time, a mark or blanks. -/
structure Layout where
  dateMark : Char
  timeMark : Option Char
  deriving DecidableEq, Repr

namespace Layout

def colons : Layout := ⟨':', none⟩

def dashes : Layout := ⟨'-', none⟩

def dashesT : Layout := ⟨'-', some 'T'⟩

end Layout

def digitsAt (most : Nat) (text : List Char) : Option (Nat × List Char) :=
  let digits := (text.take most).takeWhile Char.isDigit
  (Text.natural? digits).map fun number => (number, text.drop digits.length)

def allDigitsAt (text : List Char) : Option (Nat × List Char) :=
  (Text.natural? (text.takeWhile Char.isDigit)).map fun number =>
    (number, text.dropWhile Char.isDigit)

def skipBlanks (text : List Char) : List Char :=
  text.dropWhile Text.isBlank

/-- One or two digits after any blanks. -/
def numberAt (text : List Char) : Option (Nat × List Char) :=
  digitsAt 2 (skipBlanks text)

/-- A year after any blanks: up to four digits, or a sign and any number of digits. -/
def yearAt (text : List Char) : Option (Int × List Char) :=
  match skipBlanks text with
  | '+' :: rest => (allDigitsAt rest).map fun (number, rest) => ((number : Int), rest)
  | '-' :: rest => (allDigitsAt rest).map fun (number, rest) => (-(number : Int), rest)
  | rest => (digitsAt 4 rest).map fun (number, rest) => ((number : Int), rest)

def markAt (mark : Char) : List Char → Option (List Char)
  | [] => none
  | c :: rest => if c = mark then some rest else none

def Layout.gapAt (layout : Layout) (text : List Char) : Option (List Char) :=
  match layout.timeMark with
  | none => some (skipBlanks text)
  | some mark => markAt mark text

def Layout.timeAt (layout : Layout) (text : List Char) : Option (LocalTime × List Char) := do
  let (year, text) ← yearAt text
  let text ← markAt layout.dateMark text
  let (month, text) ← numberAt text
  let text ← markAt layout.dateMark text
  let (day, text) ← numberAt text
  let text ← layout.gapAt text
  let (hour, text) ← numberAt text
  let text ← markAt ':' text
  let (minute, text) ← numberAt text
  let text ← markAt ':' text
  let (second, text) ← numberAt text
  some (⟨year, month, day, hour, minute, second⟩, text)

def Layout.read? (layout : Layout) (text : List Char) : Option LocalTime :=
  match layout.timeAt text with
  | some (time, []) => if time.IsReal then some time else none
  | _ => none

def twoDigits (number : Nat) : List Char :=
  Text.padStart 2 '0' (Text.decimal number)

/-- Four digits, and a sign if they do not suffice or the year is negative. -/
def yearText (year : Int) : List Char :=
  let digits := Text.padStart 4 '0' (Text.decimal year.natAbs)
  if year < 0 then '-' :: digits
  else if 9999 < year then '+' :: digits
  else digits

def Layout.write (layout : Layout) (time : LocalTime) : List Char :=
  yearText time.year ++ layout.dateMark :: twoDigits time.month ++
    layout.dateMark :: twoDigits time.day ++
    layout.timeMark.getD ' ' :: twoDigits time.hour ++ ':' :: twoDigits time.minute ++
    ':' :: twoDigits time.second

end PhotoTags.Calendar
