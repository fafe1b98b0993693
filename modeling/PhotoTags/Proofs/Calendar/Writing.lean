import PhotoTags.Proofs.Calendar.Spelling

/-!
Dates and times of day as they are written, and how they are read. Every layout reads its own
writing back, whatever the year.
-/

namespace PhotoTags.Calendar

def padded (width number : Nat) : List Char :=
  Text.padStart width '0' (Text.decimal number)

theorem isDigit_of_mem_decimal {number : Nat} {c : Char} (member : c ∈ Text.decimal number) :
    c.isDigit = true :=
  Nat.isDigit_of_mem_toDigits (by omega) (by omega) member

theorem isDigit_of_mem_padded {width number : Nat} {c : Char} (member : c ∈ padded width number) :
    c.isDigit = true := by
  rcases List.mem_append.mp member with zero | digit
  · rw [List.eq_of_mem_replicate zero]
    rfl
  · exact isDigit_of_mem_decimal digit

theorem padded_ne_nil (width number : Nat) : padded width number ≠ [] := by
  simp [padded, Text.padStart, Text.decimal, Nat.toDigits_ne_nil]

theorem padded_eq_cons (width number : Nat) :
    ∃ c others, padded width number = c :: others ∧ c.isDigit = true := by
  cases digits : padded width number with
  | nil => exact absurd digits (padded_ne_nil width number)
  | cons c others =>
      exact ⟨c, others, rfl, isDigit_of_mem_padded (digits ▸ List.mem_cons_self ..)⟩

theorem length_padded {width number : Nat} (wide : 0 < width) (bound : number < Nat.pow 10 width) :
    (padded width number).length = width := by
  have short := (Nat.length_toDigits_le_iff (b := 10) (by omega) wide).mpr bound
  simp only [padded, Text.padStart, Text.decimal, List.length_append, List.length_replicate]
  omega

theorem ofDigitChars_zeros (count : Nat) :
    Nat.ofDigitChars 10 (List.replicate count '0') 0 = 0 := by
  induction count with
  | zero => rfl
  | succ count ih =>
      rw [List.replicate_succ, Nat.ofDigitChars_cons]
      exact ih

theorem digits_padded (width number : Nat) : Text.Digits (padded width number) number := by
  have denotes := Text.digits_ofDigitChars _ (padded_ne_nil width number)
    fun _ => isDigit_of_mem_padded
  rwa [padded, Text.padStart, Nat.ofDigitChars_append, ofDigitChars_zeros, Text.decimal,
    Nat.ofDigitChars_ten_toDigits] at denotes

theorem figures_padded {width number : Nat} (wide : 0 < width) (bound : number < Nat.pow 10 width)
    (next : Option Char) : Figures width next (padded width number) number :=
  have full := length_padded wide bound
  ⟨digits_padded width number, Nat.le_of_eq full, .inl full⟩

theorem numberText_twoDigits {number : Nat} (bound : number < 100) (next : Option Char) :
    NumberText next (twoDigits number) number :=
  ⟨[], _, rfl, by simp, figures_padded (by omega) bound next⟩

theorem yearText_yearText (year : Int) {next : Option Char} (ended : DigitsEnd next) :
    YearText next (yearText year) year := by
  refine ⟨[], yearText year, rfl, by simp, ?_⟩
  have digits := digits_padded 4 year.natAbs
  unfold yearText
  dsimp only
  split
  · rename_i before
    have figures := YearFigures.minus digits ended
    rwa [show -(year.natAbs : Int) = year by omega] at figures
  · rename_i after
    have positive : (year.natAbs : Int) = year := by omega
    split
    · have figures := YearFigures.plus digits ended
      rwa [positive] at figures
    · rename_i early
      have four : Figures 4 next (padded 4 year.natAbs) year.natAbs :=
        figures_padded (by omega) (show year.natAbs < 10000 by omega) next
      have figures := YearFigures.unsigned four
      rwa [positive] at figures

theorem monthLength_le (year : Int) (month : Nat) : monthLength year month ≤ 31 := by
  unfold monthLength
  split <;> (try split) <;> omega

/-- What a layout writes says the time. Without a mark a blank stands before the hour. -/
theorem spells_write {layout : Layout} (marked : layout.dateMark.isDigit = false) {time : LocalTime}
    (real : time.IsReal) (next : Option Char) : layout.Spells next (layout.write time) time := by
  obtain ⟨_, _, _, month, _, day, hour, minute, second⟩ := real
  have short := monthLength_le time.year time.month
  have ended : DigitsEnd layout.dateMark := by
    rintro c ⟨⟩
    exact marked
  have year := yearText_yearText time.year ended
  have two {number : Nat} (bound : number < 100) {next : Option Char} :=
    numberText_twoDigits bound next
  have spells {hourText : List Char} (gap : layout.timeMark.toList ++ hourText =
      layout.timeMark.getD ' ' :: twoDigits time.hour) (hourRead : NumberText ':' hourText time.hour) :
      layout.Spells next (layout.write time) time := by
    refine ⟨_, _, _, hourText, _, _, ?_, year, two (by omega), two (by omega), hourRead,
      two (by omega), two (by omega)⟩
    rw [← List.append_assoc layout.timeMark.toList, gap]
    simp [Layout.write]
  cases mark : layout.timeMark with
  | none =>
      have figures : Figures 2 ':' (twoDigits time.hour) time.hour :=
        figures_padded (by omega) (show time.hour < 100 by omega) ':'
      have blank : ∀ c ∈ [' '], Text.isBlank c = true := List.forall_mem_singleton.mpr (by decide)
      exact spells (by simp [mark]) ⟨[' '], _, rfl, blank, figures⟩
  | some c => exact spells (by simp [mark]) (two (by omega))

theorem read?_write {layout : Layout} (marked : layout.dateMark.isDigit = false) {time : LocalTime}
    (real : time.IsReal) : layout.read? (layout.write time) = some time :=
  read?_eq_some_iff.mpr ⟨spells_write marked real none, real⟩

end PhotoTags.Calendar
