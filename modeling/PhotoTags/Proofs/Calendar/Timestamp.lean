import PhotoTags.Proofs.Calendar.Spelling

/-!
The texts that are read as timestamps. All their numbers have a fixed count of digits. What says a
timestamp says no time in a layout: it has a colon or a letter too many.
-/

namespace PhotoTags.Calendar

inductive FractionText : List Char → Prop
  | none : FractionText []
  | some {digits : List Char} {number : Nat} : Text.Digits digits number →
      FractionText ('.' :: digits)

def ShiftText (text : List Char) (shift : Nat) : Prop :=
  ∃ hours minutes h m, text = hours ++ ':' :: minutes ∧ ExactFigures 2 hours h ∧
    ExactFigures 2 minutes m ∧ h < 24 ∧ m < 60 ∧ shift = h * 60 + m

inductive ZoneText : List Char → Int → Prop
  | utc {mark : Char} : mark = 'Z' ∨ mark = 'z' → ZoneText [mark] 0
  | east {text : List Char} {shift : Nat} : ShiftText text shift → ZoneText ('+' :: text) shift
  | west {sign : Char} {text : List Char} {shift : Nat} : isMinus sign = true →
      ShiftText text shift → ZoneText (sign :: text) (-shift)

def TimestampText (text : List Char) (time : LocalTime) (offset : Int) : Prop :=
  ∃ year month day separator hour minute second fraction zone,
    text = year ++ '-' :: (month ++ '-' :: (day ++ separator :: (hour ++ ':' :: (minute ++
      ':' :: (second ++ (fraction ++ zone)))))) ∧
    0 ≤ time.year ∧ ExactFigures 4 year time.year.toNat ∧ ExactFigures 2 month time.month ∧
    ExactFigures 2 day time.day ∧ (separator = 'T' ∨ separator = 't' ∨ separator = ' ') ∧
    ExactFigures 2 hour time.hour ∧ ExactFigures 2 minute time.minute ∧
    ExactFigures 2 second time.second ∧ FractionText fraction ∧ ZoneText zone offset

def shiftAt (negative : Bool) (text : List Char) : Option (Int × List Char) := do
  let (hours, text) ← exactDigitsAt 2 text
  let text ← markAt ':' text
  let (minutes, text) ← exactDigitsAt 2 text
  if hours < 24 ∧ minutes < 60 then
    let offset : Int := (hours * 60 + minutes : Nat)
    some (if negative then -offset else offset, text)
  else none

theorem offsetWith_cons (sign : Char) (text : List Char) :
    offsetWith (markAt ':') (sign :: text) =
      if sign = '+' then shiftAt false text
      else if isMinus sign then shiftAt true text
      else none := by
  simp only [offsetWith, shiftAt, Option.bind_eq_bind]
  split
  · rfl
  · split <;> rfl

theorem shiftAt_eq_some_iff {negative : Bool} {text : List Char} {offset : Int} :
    shiftAt negative text = some (offset, []) ↔
      ∃ shift, ShiftText text shift ∧ offset = if negative then -(shift : Int) else shift := by
  simp only [shiftAt, Option.bind_eq_bind, Option.bind_eq_some_iff, Prod.exists,
    markAt_eq_some_iff, exactDigitsAt_eq_some_iff, Option.ite_none_right_eq_some, Option.some.injEq,
    Prod.mk.injEq]
  constructor
  · rintro ⟨h, _, ⟨hours, rfl, hourText⟩, _, rfl, m, _, ⟨minutes, rfl, minuteText⟩,
      ⟨hourBound, minuteBound⟩, rfl, rfl⟩
    exact ⟨_, ⟨hours, minutes, h, m, by simp, hourText, minuteText, hourBound, minuteBound, rfl⟩,
      rfl⟩
  · rintro ⟨_, ⟨hours, minutes, h, m, rfl, hourText, minuteText, hourBound, minuteBound, rfl⟩, rfl⟩
    exact ⟨h, _, ⟨hours, rfl, hourText⟩, _, rfl, m, [], ⟨minutes, by simp, minuteText⟩,
      ⟨hourBound, minuteBound⟩, rfl, rfl⟩

theorem isMinus_iff {c : Char} : isMinus c = true ↔ c = '-' ∨ c = '\u2212' := by
  simp [isMinus]

theorem zoneAt_eq_some_iff {text : List Char} {offset : Int} :
    zoneAt text = some (offset, []) ↔ ZoneText text offset := by
  unfold zoneAt
  constructor
  · intro read
    split at read
    · obtain ⟨rfl, rfl⟩ := Prod.mk.inj (Option.some.inj read)
      exact .utc (.inl rfl)
    · obtain ⟨rfl, rfl⟩ := Prod.mk.inj (Option.some.inj read)
      exact .utc (.inr rfl)
    · cases text with
      | nil => simp [offsetWith] at read
      | cons sign text =>
          rw [offsetWith_cons] at read
          split at read
          · rename_i plus
            obtain ⟨shift, shiftText, rfl⟩ := shiftAt_eq_some_iff.mp read
            exact plus ▸ .east shiftText
          · split at read
            · rename_i minus
              obtain ⟨shift, shiftText, rfl⟩ := shiftAt_eq_some_iff.mp read
              exact .west minus shiftText
            · simp at read
  · intro zoneText
    cases zoneText with
    | utc utc => rcases utc with rfl | rfl <;> rfl
    | @east text shift shiftText =>
        change offsetWith (markAt ':') ('+' :: text) = some ((shift : Int), [])
        rw [offsetWith_cons, if_pos rfl]
        exact shiftAt_eq_some_iff.mpr ⟨shift, shiftText, rfl⟩
    | @west sign text shift minus shiftText =>
        have signed : zoneAt (sign :: text) = offsetWith (markAt ':') (sign :: text) := by
          rcases isMinus_iff.mp minus with rfl | rfl <;> rfl
        have notPlus : sign ≠ '+' := by
          rcases isMinus_iff.mp minus with rfl | rfl <;> decide
        change zoneAt (sign :: text) = some (-(shift : Int), [])
        rw [signed, offsetWith_cons, if_neg notPlus, if_pos minus]
        exact shiftAt_eq_some_iff.mpr ⟨shift, shiftText, rfl⟩

theorem ZoneText.exists_cons {zone : List Char} {offset : Int} (zoneText : ZoneText zone offset) :
    ∃ mark others, zone = mark :: others ∧ mark.isDigit = false ∧ mark ≠ '.' := by
  cases zoneText with
  | utc utc => rcases utc with rfl | rfl <;> exact ⟨_, _, rfl, by decide, by decide⟩
  | east => exact ⟨_, _, rfl, by decide, by decide⟩
  | west minus =>
      rcases isMinus_iff.mp minus with rfl | rfl <;> exact ⟨_, _, rfl, by decide, by decide⟩

/-- A fraction ends where the zone starts, which has neither a point nor a digit in front. -/
theorem fractionAt_eq_some_iff {text zone : List Char} {offset : Int}
    (zoneText : ZoneText zone offset) : fractionAt text = some zone ↔
      ∃ fraction, text = fraction ++ zone ∧ FractionText fraction := by
  obtain ⟨mark, others, rfl, notDigit, notPoint⟩ := zoneText.exists_cons
  unfold fractionAt
  constructor
  · intro read
    split at read
    · simp only [Option.map_eq_some_iff, Prod.exists] at read
      obtain ⟨number, _, taken, rfl⟩ := read
      obtain ⟨digits, rfl, denotes, -⟩ := allDigitsAt_eq_some_iff.mp taken
      exact ⟨'.' :: digits, rfl, .some denotes⟩
    · exact ⟨[], Option.some.inj read, .none⟩
  · rintro ⟨_, rfl, fraction⟩
    cases fraction with
    | none =>
        split
        · rename_i starts
          exact absurd (List.cons.inj starts).1 notPoint
        · rfl
    | @some digits number denotes =>
        have ended : DigitsEnd (mark :: others).head? := by
          rintro c ⟨⟩
          exact notDigit
        change (allDigitsAt (digits ++ mark :: others)).map (·.2) = some (mark :: others)
        rw [allDigitsAt_eq_some_iff.mpr ⟨digits, rfl, denotes, ended⟩]
        rfl

theorem timeSeparatorAt_eq_some_iff {text rest : List Char} :
    timeSeparatorAt text = some rest ↔ ∃ separator, text = separator :: rest ∧
      (separator = 'T' ∨ separator = 't' ∨ separator = ' ') := by
  cases text with
  | nil => simp [timeSeparatorAt]
  | cons c others =>
      simp only [timeSeparatorAt, Option.ite_none_right_eq_some, Option.some.injEq, List.cons.injEq]
      constructor
      · rintro ⟨separates, rfl⟩
        exact ⟨c, ⟨rfl, rfl⟩, separates⟩
      · rintro ⟨_, ⟨rfl, rfl⟩, separates⟩
        exact ⟨separates, rfl⟩

theorem timestamp?_eq_some_iff {text : List Char} {time : LocalTime} {offset : Int} :
    timestamp? text = some (time, offset) ↔ TimestampText text time offset ∧ time.IsReal := by
  simp only [timestamp?, Option.bind_eq_bind, Option.bind_eq_some_iff, Prod.exists,
    markAt_eq_some_iff, exactDigitsAt_eq_some_iff, timeSeparatorAt_eq_some_iff,
    Option.ite_none_right_eq_some, Option.some.injEq, Prod.mk.injEq, List.isEmpty_iff]
  constructor
  · rintro ⟨_, _, ⟨year, rfl, yearText⟩, _, rfl, _, _, ⟨month, rfl, monthText⟩, _, rfl,
      _, _, ⟨day, rfl, dayText⟩, _, ⟨separator, rfl, separates⟩, _, _, ⟨hour, rfl, hourText⟩, _, rfl,
      _, _, ⟨minute, rfl, minuteText⟩, _, rfl, _, _, ⟨second, rfl, secondText⟩, zone, fractionRead,
      _, _, zoneRead, ⟨rfl, real⟩, rfl, rfl⟩
    have zoneText := zoneAt_eq_some_iff.mp zoneRead
    obtain ⟨fraction, rfl, fractionText⟩ := (fractionAt_eq_some_iff zoneText).mp fractionRead
    exact ⟨⟨year, month, day, separator, hour, minute, second, fraction, zone, by simp, by simp,
      yearText, monthText, dayText, separates, hourText, minuteText, secondText, fractionText,
      zoneText⟩, real⟩
  · rintro ⟨⟨year, month, day, separator, hour, minute, second, fraction, zone, rfl, after, yearText,
      monthText, dayText, separates, hourText, minuteText, secondText, fractionText, zoneText⟩, real⟩
    have same : (time.year.toNat : Int) = time.year := Int.toNat_of_nonneg after
    refine ⟨_, _, ⟨year, rfl, yearText⟩, _, rfl, _, _, ⟨month, rfl, monthText⟩, _, rfl,
      _, _, ⟨day, rfl, dayText⟩, _, ⟨separator, rfl, separates⟩, _, _, ⟨hour, rfl, hourText⟩, _, rfl,
      _, _, ⟨minute, rfl, minuteText⟩, _, rfl, _, _, ⟨second, rfl, secondText⟩, zone,
      (fractionAt_eq_some_iff zoneText).mpr ⟨fraction, rfl, fractionText⟩,
      offset, [], zoneAt_eq_some_iff.mpr zoneText, ⟨rfl, ?_⟩, ?_, rfl⟩
    · rw [same]
      exact real
    · rw [same]

theorem not_mem_of_digits {digits : List Char} {number : Nat} (denotes : Text.Digits digits number)
    {mark : Char} (other : mark.isDigit = false) : mark ∉ digits :=
  fun member => ne_of_isDigit (denotes.isDigit mark member) other rfl

theorem FractionText.mem {fraction : List Char} (fractionText : FractionText fraction) {c : Char}
    (member : c ∈ fraction) : c.isDigit = true ∨ c = '.' := by
  cases fractionText with
  | none => simp at member
  | some denotes =>
      rcases List.mem_cons.mp member with point | digit
      · exact .inr point
      · exact .inl (denotes.isDigit c digit)

theorem ShiftText.mem {text : List Char} {shift : Nat} (shiftText : ShiftText text shift) {c : Char}
    (member : c ∈ text) : c.isDigit = true ∨ c = ':' := by
  obtain ⟨hours, minutes, _, _, rfl, hourText, minuteText, -⟩ := shiftText
  rcases List.mem_append.mp member with digit | behind
  · exact .inl (hourText.denotes.isDigit c digit)
  · rcases List.mem_cons.mp behind with colon | digit
    · exact .inr colon
    · exact .inl (minuteText.denotes.isDigit c digit)

theorem ZoneText.mem {zone : List Char} {offset : Int} (zoneText : ZoneText zone offset) {c : Char}
    (member : c ∈ zone) : c.isDigit = true ∨ c ∈ ['Z', 'z', '+', '-', '\u2212', ':'] := by
  cases zoneText with
  | utc utc =>
      rw [List.mem_singleton.mp member]
      rcases utc with rfl | rfl <;> simp
  | east shiftText =>
      rcases List.mem_cons.mp member with rfl | inside
      · simp
      · rcases shiftText.mem inside with digit | rfl <;> simp [*]
  | west minus shiftText =>
      rcases List.mem_cons.mp member with rfl | inside
      · rcases isMinus_iff.mp minus with rfl | rfl <;> simp
      · rcases shiftText.mem inside with digit | rfl <;> simp [*]

section

variable {text : List Char} {time : LocalTime} {offset : Int}

theorem TimestampText.dash_mem (stamp : TimestampText text time offset) : '-' ∈ text := by
  obtain ⟨year, _, _, _, _, _, _, _, _, rfl, -⟩ := stamp
  simp

theorem TimestampText.mem (stamp : TimestampText text time offset) {c : Char} (member : c ∈ text) :
    c.isDigit = true ∨ c ∈ ['-', 'T', 't', ' ', ':', '.', 'Z', 'z', '+', '\u2212'] := by
  obtain ⟨year, month, day, separator, hour, minute, second, fraction, zone, rfl, -, yearText,
    monthText, dayText, separates, hourText, minuteText, secondText, fractionText, zoneText⟩ := stamp
  have number : c ∈ year ∨ c ∈ month ∨ c ∈ day ∨ c ∈ hour ∨ c ∈ minute ∨ c ∈ second →
      c.isDigit = true := by
    rintro (inside | inside | inside | inside | inside | inside)
    exacts [yearText.denotes.isDigit c inside, monthText.denotes.isDigit c inside,
      dayText.denotes.isDigit c inside, hourText.denotes.isDigit c inside,
      minuteText.denotes.isDigit c inside, secondText.denotes.isDigit c inside]
  have inFraction : c ∈ fraction → _ := fractionText.mem
  have inZone : c ∈ zone → _ := zoneText.mem
  simp only [List.mem_append, List.mem_cons, List.not_mem_nil, or_false] at member inZone ⊢
  grind

/-- Two colons are in the time of day, and one in an offset that is not written as a letter. -/
theorem TimestampText.count_colon (stamp : TimestampText text time offset) :
    text.count ':' = 2 ∧ ('Z' ∈ text ∨ 'z' ∈ text) ∨ text.count ':' = 3 := by
  obtain ⟨year, month, day, separator, hour, minute, second, fraction, zone, rfl, -, yearText,
    monthText, dayText, separates, hourText, minuteText, secondText, fractionText, zoneText⟩ := stamp
  have inNumber {count : Nat} {digits : List Char} {number : Nat}
      (figures : ExactFigures count digits number) : digits.count ':' = 0 :=
    List.count_eq_zero.mpr (not_mem_of_digits figures.denotes rfl)
  have inFraction : fraction.count ':' = 0 :=
    List.count_eq_zero.mpr fun member => absurd (fractionText.mem member) (by decide)
  have noColon : separator ≠ ':' := by
    rcases separates with rfl | rfl | rfl <;> decide
  have shifted {sign : Char} {text : List Char} {shift : Nat} (shiftText : ShiftText text shift)
      (other : sign ≠ ':') : (sign :: text).count ':' = 1 := by
    obtain ⟨hours, minutes, _, _, rfl, hourText, minuteText, -⟩ := shiftText
    simp [other, inNumber hourText, inNumber minuteText]
  simp only [List.count_append, List.count_cons, inNumber yearText, inNumber monthText,
    inNumber dayText, inNumber hourText, inNumber minuteText, inNumber secondText, inFraction]
  cases zoneText with
  | utc utc => rcases utc with rfl | rfl <;> simp [noColon]
  | east shiftText => simp [noColon, shifted shiftText]
  | west minus shiftText =>
      rcases isMinus_iff.mp minus with rfl | rfl <;> simp [noColon, shifted shiftText]

end

/-- No text is read both as a timestamp and in a layout that has other marks. -/
theorem TimestampText.not_spells {layout : Layout} {next : Option Char} {text : List Char}
    {time other : LocalTime} {offset : Int} (stamp : TimestampText text time offset)
    (marks : ∀ mark ∈ layout.dateMark :: layout.timeMark.toList, mark ∉ [':', 'Z', 'z']) :
    ¬ layout.Spells next text other := by
  intro spells
  have noMark {c : Char} (listed : c ∈ [':', 'Z', 'z']) :
      c ∉ layout.dateMark :: layout.timeMark.toList := fun member => marks c member listed
  have two : text.count ':' = 2 := by
    have absent := noMark (c := ':') (by simp)
    rw [List.mem_cons, not_or] at absent
    rw [spells.count_colon, List.count_eq_zero.mpr absent.2,
      List.count_eq_zero.mpr (by simpa using absent.1)]
  rcases stamp.count_colon with ⟨-, big | small⟩ | three
  · exact spells.not_mem rfl rfl (by decide) (noMark (by simp)) big
  · exact spells.not_mem rfl rfl (by decide) (noMark (by simp)) small
  · omega

end PhotoTags.Calendar
