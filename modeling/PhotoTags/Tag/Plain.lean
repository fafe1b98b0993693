import PhotoTags.Calendar.Timestamp

/-!
Plain texts of values. A value that an image shows is trimmed, freed of quotation marks around it
and of the quotient in brackets behind a rational, and dates come back to the layout of date tags.
-/

namespace PhotoTags.Tag

def isInteger (text : List Char) : Bool :=
  match text with
  | '-' :: digits => Text.isDigits digits
  | digits => Text.isDigits digits

def isQuotient (text : List Char) : Bool :=
  match Text.cutAt '/' text with
  | none => false
  | some (numerator, denominator) => isInteger numerator && isInteger denominator

/-- The quotient before a space and an opening bracket. A quotient has no space, so that only the
first space of the text can stand there. -/
def decorated? (text : List Char) : Option (List Char) :=
  match Text.cutAt ' ' text with
  | some (quotient, '(' :: _) => if isQuotient quotient then some quotient else none
  | _ => none

def clock? (text : List Char) : Option LocalTime :=
  match Calendar.timestamp? text with
  | some (time, _) => some time
  | none =>
      match Calendar.Layout.dashes.read? text with
      | some time => some time
      | none => Calendar.Layout.dashesT.read? text

/-- A text without the decorations of values that are shown; any other text stays. -/
def undecorated (text : List Char) : List Char :=
  match decorated? text with
  | some quotient => quotient
  | none =>
      match clock? text with
      | some time => Calendar.Layout.colons.write time
      | none => text

def plain? (shown : List Char) : Option (List Char) :=
  let bare := Text.stripWhile (· == '\x22') (Text.trim shown)
  if bare.isEmpty then none else some (undecorated bare)

end PhotoTags.Tag
