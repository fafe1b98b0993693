import Mathlib.Algebra.GroupWithZero.Nat
import Mathlib.Data.List.Basic
import PhotoTags.Calendar.Zone

/-!
Counting days and seconds. Every day lies in one month of one year, so that counting from the start of
1970 and reading the clock undo each other; the readings that a clock can show are those that the
seconds in the range of dates have, and a leap second behind any of them.
-/

namespace PhotoTags.Calendar

theorem daysBeforeYear_mono {early late : Int} (order : early ≤ late) :
    daysBeforeYear early ≤ daysBeforeYear late := by
  unfold daysBeforeYear
  omega

def yearLength (year : Int) : Nat :=
  if isLeapYear year then 366 else 365

theorem daysBeforeYear_add_one (year : Int) :
    daysBeforeYear (year + 1) = daysBeforeYear year + yearLength year := by
  unfold daysBeforeYear yearLength isLeapYear
  simp only [Bool.and_eq_true, Bool.or_eq_true, beq_iff_eq, bne_iff_ne]
  split <;> omega

theorem yearOfDay_bounds (day : Int) :
    daysBeforeYear (yearOfDay day) ≤ day ∧ day < daysBeforeYear (yearOfDay day + 1) := by
  unfold yearOfDay
  dsimp only
  split
  · rename_i late
    rw [Int.sub_add_cancel]
    refine ⟨?_, late⟩
    unfold daysBeforeYear
    omega
  · split
    · rename_i early
      refine ⟨early, ?_⟩
      unfold daysBeforeYear
      omega
    · omega

theorem yearOfDay_eq {year day : Int} (starts : daysBeforeYear year ≤ day)
    (ends : day < daysBeforeYear (year + 1)) : yearOfDay day = year := by
  obtain ⟨lower, upper⟩ := yearOfDay_bounds day
  rcases Int.lt_trichotomy (yearOfDay day) year with before | same | behind
  · have earlier := daysBeforeYear_mono (show yearOfDay day + 1 ≤ year by omega)
    omega
  · exact same
  · have later := daysBeforeYear_mono (show year + 1 ≤ yearOfDay day by omega)
    omega

def daysOf (year : Int) (months : List Nat) : Nat :=
  (months.map (monthLength year)).sum

theorem daysOf_cons (year : Int) (month : Nat) (later : List Nat) :
    daysOf year (month :: later) = monthLength year month + daysOf year later := by
  rw [daysOf, List.map_cons, List.sum_cons, daysOf]

theorem daysOf_append (year : Int) (earlier later : List Nat) :
    daysOf year (earlier ++ later) = daysOf year earlier + daysOf year later := by
  rw [daysOf, List.map_append, List.sum_append, daysOf, daysOf]

theorem foldl_daysOf (year : Int) (months : List Nat) (start : Nat) :
    months.foldl (fun days earlier => days + monthLength year earlier) start =
      start + daysOf year months := by
  induction months generalizing start with
  | nil => rfl
  | cons month later ih =>
      rw [List.foldl_cons, ih, daysOf_cons, Nat.add_assoc]

theorem daysBeforeMonth_eq (year : Int) {month : Nat} (first : 1 ≤ month) :
    daysBeforeMonth year month = daysOf year (List.range' 1 (month - 1)) := by
  obtain ⟨earlier, rfl⟩ := Nat.exists_eq_add_of_le' first
  rw [daysBeforeMonth, List.range_eq_range', List.range'_succ, List.foldl_cons, foldl_daysOf]
  exact Nat.zero_add _

def months : List Nat :=
  List.range' 1 12

theorem daysOf_months (year : Int) : daysOf year months = yearLength year := by
  simp only [months, List.range'_succ, List.range'_zero, daysOf_cons, monthLength, yearLength]
  split <;> rfl

theorem monthAndDay_append {year : Int} {month : Nat} (earlier later : List Nat) {day : Nat}
    (within : day < monthLength year month) :
    monthAndDay year (earlier ++ month :: later) (daysOf year earlier + day) = (month, day + 1) := by
  induction earlier with
  | nil => simp [daysOf, monthAndDay, within]
  | cons first others ih =>
      have beyond : ¬ monthLength year first + daysOf year others + day < monthLength year first := by
        omega
      rw [List.cons_append, daysOf_cons, monthAndDay, if_neg beyond, Nat.add_assoc,
        Nat.add_sub_cancel_left, ih]

theorem exists_month {year : Int} {months : List Nat} {day : Nat}
    (within : day < daysOf year months) :
    ∃ earlier month later rest, months = earlier ++ month :: later ∧
      rest < monthLength year month ∧ day = daysOf year earlier + rest := by
  induction months generalizing day with
  | nil => simp [daysOf] at within
  | cons first others ih =>
      by_cases inFirst : day < monthLength year first
      · exact ⟨[], first, others, day, rfl, inFirst, by simp [daysOf]⟩
      · rw [daysOf_cons] at within
        have behind : day - monthLength year first < daysOf year others := by omega
        obtain ⟨earlier, month, later, rest, rfl, short, same⟩ := ih behind
        refine ⟨first :: earlier, month, later, rest, rfl, short, ?_⟩
        rw [daysOf_cons]
        omega

theorem months_eq {month : Nat} (first : 1 ≤ month) (last : month ≤ 12) :
    months = List.range' 1 (month - 1) ++ month :: List.range' (month + 1) (12 - month) := by
  refine List.range'_eq_append_iff.mpr ⟨month - 1, by omega, rfl, ?_⟩
  rw [show 12 - (month - 1) = 12 - month + 1 by omega, List.range'_succ,
    show 1 + (month - 1) * 1 = month by omega]

theorem eq_of_months_eq {earlier later : List Nat} {month : Nat}
    (same : months = earlier ++ month :: later) :
    1 ≤ month ∧ month ≤ 12 ∧ earlier = List.range' 1 (month - 1) := by
  obtain ⟨count, short, rfl, behind⟩ := List.range'_eq_append_iff.mp same
  obtain ⟨remaining, rest⟩ := Nat.exists_eq_succ_of_ne_zero (n := 12 - count) <| by
    intro none
    rw [none] at behind
    simp at behind
  rw [rest, List.range'_succ] at behind
  have here := (List.cons.inj behind).1
  refine ⟨by omega, by omega, ?_⟩
  rw [show month - 1 = count by omega]

structure InMonth (year : Int) (month day : Nat) : Prop where
  first : 1 ≤ month
  last : month ≤ 12
  within : day < monthLength year month

section

variable {year : Int} {month day : Nat}

theorem InMonth.day_lt (date : InMonth year month day) :
    daysBeforeMonth year month + day < yearLength year := by
  have within := date.within
  rw [← daysOf_months, months_eq date.first date.last, daysBeforeMonth_eq year date.first,
    daysOf_append, daysOf_cons]
  omega

theorem InMonth.monthAndDay_eq (date : InMonth year month day) :
    monthAndDay year months (daysBeforeMonth year month + day) = (month, day + 1) := by
  rw [months_eq date.first date.last, daysBeforeMonth_eq year date.first,
    monthAndDay_append _ _ date.within]

theorem dayNumber_eq (year : Int) (month day : Nat) :
    dayNumber year month (day + 1) =
      daysBeforeYear year + (daysBeforeMonth year month + day : Nat) - epochDay := by
  unfold dayNumber
  omega

theorem exists_inMonth (within : day < yearLength year) :
    ∃ month rest, InMonth year month rest ∧ day = daysBeforeMonth year month + rest := by
  rw [← daysOf_months] at within
  obtain ⟨earlier, month, later, rest, split, short, rfl⟩ := exists_month within
  obtain ⟨first, last, rfl⟩ := eq_of_months_eq split
  exact ⟨month, rest, ⟨first, last, short⟩, by rw [daysBeforeMonth_eq year first]⟩

end

end PhotoTags.Calendar

namespace PhotoTags.LocalTime

open Calendar

def counted (time : LocalTime) : LocalTime :=
  { time with second := min time.second 59 }

section

variable {year : Int} {month day second : Nat}

theorem ofSeconds_eq (date : InMonth year month day) (short : second < 86400) :
    ofSeconds (dayNumber year month (day + 1) * 86400 + second) =
      ⟨year, month, day + 1, second / 3600, second / 60 % 60, second % 60⟩ := by
  have inYear := date.day_lt
  have next := daysBeforeYear_add_one year
  have number := dayNumber_eq year month day
  have days : (dayNumber year month (day + 1) * 86400 + second) / 86400 + epochDay =
      daysBeforeYear year + (daysBeforeMonth year month + day : Nat) := by
    omega
  have rest : ((dayNumber year month (day + 1) * 86400 + second) % 86400).toNat = second := by
    omega
  have inside : yearOfDay (daysBeforeYear year + (daysBeforeMonth year month + day : Nat)) = year :=
    yearOfDay_eq (by omega) (by omega)
  have place : (daysBeforeYear year + (daysBeforeMonth year month + day : Nat) -
      daysBeforeYear year).toNat = daysBeforeMonth year month + day := by
    omega
  unfold ofSeconds
  dsimp only
  rw [days, rest, inside, place, show [1, 2, 3, 4, 5, 6, 7, 8, 9, 10, 11, 12] = months from rfl,
    date.monthAndDay_eq]

theorem inRange_iff (date : InMonth year month day) (short : second < 86400) :
    Zone.inRange (dayNumber year month (day + 1) * 86400 + second) = true ↔
      firstYear ≤ year ∧ year ≤ lastYear := by
  have inYear := date.day_lt
  have next := daysBeforeYear_add_one year
  have start : dayNumber firstYear 1 1 = daysBeforeYear firstYear - epochDay := by decide
  have stop : dayNumber lastYear 12 31 + 1 = daysBeforeYear (lastYear + 1) - epochDay := by decide
  rw [Zone.inRange, Bool.and_eq_true, decide_eq_true_eq, decide_eq_true_eq, start, stop,
    dayNumber_eq]
  constructor
  · rintro ⟨early, late⟩
    constructor
    · by_contra before
      have order := daysBeforeYear_mono (show year + 1 ≤ firstYear by omega)
      omega
    · by_contra behind
      have order := daysBeforeYear_mono (show lastYear + 1 ≤ year by omega)
      omega
  · rintro ⟨early, late⟩
    have order := daysBeforeYear_mono early
    have orderNext := daysBeforeYear_mono (show year + 1 ≤ lastYear + 1 by omega)
    omega

end

theorem exists_day (instant : Int) :
    ∃ year month day second, InMonth year month day ∧ second < 86400 ∧
      instant = dayNumber year month (day + 1) * 86400 + (second : Nat) := by
  obtain ⟨lower, upper⟩ := yearOfDay_bounds (instant / 86400 + epochDay)
  generalize yearOfDay (instant / 86400 + epochDay) = year at lower upper
  rw [daysBeforeYear_add_one] at upper
  have within : (instant / 86400 + epochDay - daysBeforeYear year).toNat < yearLength year := by
    omega
  obtain ⟨month, day, date, place⟩ := exists_inMonth within
  refine ⟨year, month, day, (instant % 86400).toNat, date, by omega, ?_⟩
  rw [dayNumber_eq]
  omega

theorem seconds_ofSeconds (instant : Int) : (ofSeconds instant).seconds = instant := by
  obtain ⟨year, month, day, second, date, short, rfl⟩ := exists_day instant
  rw [ofSeconds_eq date short, seconds]
  dsimp only
  omega

theorem isReal_ofSeconds {instant : Int} (inside : Zone.inRange instant = true) :
    (ofSeconds instant).IsReal := by
  obtain ⟨year, month, day, second, date, short, rfl⟩ := exists_day instant
  obtain ⟨early, late⟩ := (inRange_iff date short).mp inside
  rw [ofSeconds_eq date short]
  refine ⟨early, late, date.first, date.last, ?_, date.within, ?_, ?_, ?_⟩ <;> dsimp only <;> omega

section

variable {time : LocalTime}

theorem IsReal.inMonth (real : time.IsReal) : InMonth time.year time.month (time.day - 1) := by
  obtain ⟨-, -, first, last, firstDay, lastDay, -⟩ := real
  exact ⟨first, last, by omega⟩

theorem IsReal.second_le (real : time.IsReal) : time.second ≤ 60 :=
  real.2.2.2.2.2.2.2.2

/-- The second of the day, as `seconds` counts it. -/
theorem IsReal.exists_second (real : time.IsReal) :
    ∃ second < 86400, time.seconds = dayNumber time.year time.month (time.day - 1 + 1) * 86400 +
        (second : Nat) ∧
      (⟨time.year, time.month, time.day - 1 + 1, second / 3600, second / 60 % 60, second % 60⟩ :
        LocalTime) = time.counted := by
  obtain ⟨-, -, -, -, firstDay, -, hour, minute, -⟩ := real
  refine ⟨time.hour * 3600 + time.minute * 60 + min time.second 59, by omega, ?_, ?_⟩
  · rw [seconds, Nat.sub_add_cancel firstDay]
  · rw [counted, LocalTime.mk.injEq]
    refine ⟨rfl, rfl, ?_, ?_, ?_, ?_⟩ <;> omega

theorem ofSeconds_seconds (real : time.IsReal) : ofSeconds time.seconds = time.counted := by
  obtain ⟨second, short, same, shown⟩ := real.exists_second
  rw [same, ofSeconds_eq real.inMonth short, shown]

theorem inRange_seconds (real : time.IsReal) : Zone.inRange time.seconds = true := by
  obtain ⟨second, short, same, -⟩ := real.exists_second
  rw [same]
  exact (inRange_iff real.inMonth short).mpr ⟨real.1, real.2.1⟩

theorem seconds_counted (time : LocalTime) : time.counted.seconds = time.seconds := by
  simp only [seconds, counted]
  omega

/-- The readings that a clock can show are those that counting the seconds of the range of dates
leads to, and a leap second behind any second 59 of them. -/
theorem isReal_iff : time.IsReal ↔ time.second ≤ 60 ∧
    ∃ instant, Zone.inRange instant = true ∧ ofSeconds instant = time.counted := by
  constructor
  · intro real
    exact ⟨real.second_le, time.seconds, inRange_seconds real, ofSeconds_seconds real⟩
  · rintro ⟨second, instant, inside, shown⟩
    have real := isReal_ofSeconds inside
    rw [shown] at real
    obtain ⟨early, late, firstMonth, lastMonth, firstDay, lastDay, hour, minute, -⟩ := real
    exact ⟨early, late, firstMonth, lastMonth, firstDay, lastDay, hour, minute, second⟩

end

end PhotoTags.LocalTime
