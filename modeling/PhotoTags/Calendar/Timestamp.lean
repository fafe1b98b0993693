import PhotoTags.Calendar.Layout

/-!
Timestamps with an offset from UTC, such as `2023-07-09T20:36:33+08:00`: a date and a time with all
their digits, an optional fraction of a second, and the offset.
-/

namespace PhotoTags.Calendar

def exactDigitsAt (count : Nat) (text : List Char) : Option (Nat × List Char) :=
  if (text.take count).length = count then
    (Text.natural? (text.take count)).map fun number => (number, text.drop count)
  else none

def isMinus (c : Char) : Bool :=
  c == '-' || c == '\u2212'

/-- Minutes east of Greenwich: a sign, two digits of hours, what `gapAt` reads, and two digits of
minutes. The whole stays below a day. -/
def offsetWith (gapAt : List Char → Option (List Char)) (text : List Char) :
    Option (Int × List Char) := do
  let (negative, text) ← match text with
    | [] => none
    | c :: rest =>
        if c = '+' then some (false, rest) else if isMinus c then some (true, rest) else none
  let (hours, text) ← exactDigitsAt 2 text
  let text ← gapAt text
  let (minutes, text) ← exactDigitsAt 2 text
  if hours < 24 ∧ minutes < 60 then
    let offset : Int := (hours * 60 + minutes : Nat)
    some (if negative then -offset else offset, text)
  else none

def zoneAt (text : List Char) : Option (Int × List Char) :=
  match text with
  | 'Z' :: rest => some (0, rest)
  | 'z' :: rest => some (0, rest)
  | text => offsetWith (markAt ':') text

/-- A point and one or more digits, if there is a point. -/
def fractionAt (text : List Char) : Option (List Char) :=
  match text with
  | '.' :: rest => (allDigitsAt rest).map (·.2)
  | text => some text

def timeSeparatorAt : List Char → Option (List Char)
  | c :: rest => if c = 'T' ∨ c = 't' ∨ c = ' ' then some rest else none
  | [] => none

def timestamp? (text : List Char) : Option (LocalTime × Int) := do
  let (year, text) ← exactDigitsAt 4 text
  let text ← markAt '-' text
  let (month, text) ← exactDigitsAt 2 text
  let text ← markAt '-' text
  let (day, text) ← exactDigitsAt 2 text
  let text ← timeSeparatorAt text
  let (hour, text) ← exactDigitsAt 2 text
  let text ← markAt ':' text
  let (minute, text) ← exactDigitsAt 2 text
  let text ← markAt ':' text
  let (second, text) ← exactDigitsAt 2 text
  let text ← fractionAt text
  let (offset, text) ← zoneAt text
  let time : LocalTime := ⟨year, month, day, hour, minute, second⟩
  if text.isEmpty ∧ time.IsReal then some (time, offset) else none

def offsetText (offset : Int) : List Char :=
  (if offset < 0 then '-' else '+') :: twoDigits (offset.natAbs / 60) ++
    ':' :: twoDigits (offset.natAbs % 60)

def timestampText (time : LocalTime) (offset : Int) : List Char :=
  Layout.dashesT.write time ++ offsetText offset

end PhotoTags.Calendar
