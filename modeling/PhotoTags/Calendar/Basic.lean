/-!
Local times in the proleptic Gregorian calendar, which has a year 0. Days and seconds are counted
from the start of 1970; a leap second counts as the second before it.
-/

namespace PhotoTags

/-- A wall clock's reading. Second 60 is a leap second. -/
structure LocalTime where
  year : Int
  month : Nat
  day : Nat
  hour : Nat
  minute : Nat
  second : Nat
  deriving DecidableEq, Repr

namespace Calendar

def firstYear : Int := -262143

def lastYear : Int := 262142

def isLeapYear (year : Int) : Bool :=
  year % 4 == 0 && (year % 100 != 0 || year % 400 == 0)

def monthLength (year : Int) : Nat → Nat
  | 1 => 31
  | 2 => if isLeapYear year then 29 else 28
  | 3 => 31
  | 4 => 30
  | 5 => 31
  | 6 => 30
  | 7 => 31
  | 8 => 31
  | 9 => 30
  | 10 => 31
  | 11 => 30
  | 12 => 31
  | _ => 0

def daysBeforeYear (year : Int) : Int :=
  365 * (year - 1) + (year - 1) / 4 - (year - 1) / 100 + (year - 1) / 400

def daysBeforeMonth (year : Int) (month : Nat) : Nat :=
  (List.range month).foldl (fun days earlier => days + monthLength year earlier) 0

def epochDay : Int := 719162

def dayNumber (year : Int) (month day : Nat) : Int :=
  daysBeforeYear year + daysBeforeMonth year month + day - 1 - epochDay

/-- The year in which a day lies, the day being counted from the start of year 1. -/
def yearOfDay (day : Int) : Int :=
  let guess := day * 400 / 146097 + 1
  if day < daysBeforeYear guess then guess - 1
  else if daysBeforeYear (guess + 1) ≤ day then guess + 1
  else guess

/-- The month and day of the month, where `day` counts from 0 at the start of a month. -/
def monthAndDay (year : Int) : List Nat → Nat → Nat × Nat
  | [], day => (12, day + 1)
  | month :: later, day =>
      if day < monthLength year month then (month, day + 1)
      else monthAndDay year later (day - monthLength year month)

end Calendar

namespace LocalTime

open Calendar

/-- The reading is one that a clock can show, in a year that dates may have. -/
def IsReal (time : LocalTime) : Prop :=
  firstYear ≤ time.year ∧ time.year ≤ lastYear ∧ 1 ≤ time.month ∧ time.month ≤ 12 ∧
    1 ≤ time.day ∧ time.day ≤ monthLength time.year time.month ∧
    time.hour < 24 ∧ time.minute < 60 ∧ time.second ≤ 60

instance (time : LocalTime) : Decidable time.IsReal := by
  unfold IsReal
  infer_instance

def isLeapSecond (time : LocalTime) : Bool :=
  time.second == 60

def seconds (time : LocalTime) : Int :=
  dayNumber time.year time.month time.day * 86400 +
    (time.hour * 3600 + time.minute * 60 + min time.second 59 : Nat)

def ofSeconds (seconds : Int) : LocalTime :=
  let day := seconds / 86400 + epochDay
  let second := (seconds % 86400).toNat
  let year := yearOfDay day
  let date := monthAndDay year [1, 2, 3, 4, 5, 6, 7, 8, 9, 10, 11, 12]
    (day - daysBeforeYear year).toNat
  ⟨year, date.1, date.2, second / 3600, second / 60 % 60, second % 60⟩

example : (⟨2007, 4, 15, 14, 30, 0⟩ : LocalTime).seconds = 1176647400 := by decide

example : ofSeconds 1176647400 = ⟨2007, 4, 15, 14, 30, 0⟩ := by decide

end LocalTime

end PhotoTags
