import PhotoTags.Proofs.Calendar.Digits

/-!
The texts that are read as times in a layout. A year has at most four digits, or a sign and any number
of them; the other numbers have one or two, and blanks may stand before each number. So a layout reads
more than it writes, but never takes a number for another one.
-/

namespace PhotoTags.Calendar

inductive YearFigures (next : Option Char) : List Char → Int → Prop
  | unsigned {digits : List Char} {number : Nat} : Figures 4 next digits number →
      YearFigures next digits number
  | plus {digits : List Char} {number : Nat} : Text.Digits digits number → DigitsEnd next →
      YearFigures next ('+' :: digits) number
  | minus {digits : List Char} {number : Nat} : Text.Digits digits number → DigitsEnd next →
      YearFigures next ('-' :: digits) (-number)

def YearText (next : Option Char) : List Char → Int → Prop :=
  AfterBlanks (YearFigures next)

/-- The text says the time in the layout, where `next` is the character behind it. -/
def Layout.Spells (layout : Layout) (next : Option Char) (text : List Char) (time : LocalTime) :
    Prop :=
  ∃ year month day hour minute second,
    text = year ++ layout.dateMark :: (month ++ layout.dateMark :: (day ++
      (layout.timeMark.toList ++ (hour ++ ':' :: (minute ++ ':' :: second))))) ∧
    YearText layout.dateMark year time.year ∧ NumberText layout.dateMark month time.month ∧
    NumberText (layout.timeMark.or hour.head?) day time.day ∧
    NumberText ':' hour time.hour ∧ NumberText ':' minute time.minute ∧
    NumberText next second time.second

theorem YearFigures.exists_head? {next : Option Char} {part : List Char} {year : Int}
    (figures : YearFigures next part year) : ∃ c ∈ part.head?, Text.isBlank c = false := by
  cases figures with
  | unsigned figures => exact exists_head?_of_digits figures.denotes
  | plus => exact ⟨'+', rfl, by decide⟩
  | minus => exact ⟨'-', rfl, by decide⟩

theorem YearText.mem {next : Option Char} {part : List Char} {year : Int}
    (yearText : YearText next part year) {c : Char} (member : c ∈ part) :
    c.isDigit = true ∨ Text.isBlank c = true ∨ c = '+' ∨ c = '-' := by
  obtain ⟨blanks, numeral, rfl, blank, figures⟩ := yearText
  rcases List.mem_append.mp member with before | inside
  · exact .inr (.inl (blank c before))
  · cases figures with
    | unsigned figures => exact .inl (figures.denotes.isDigit c inside)
    | plus denotes =>
        rcases List.mem_cons.mp inside with sign | digit
        · exact .inr (.inr (.inl sign))
        · exact .inl (denotes.isDigit c digit)
    | minus denotes =>
        rcases List.mem_cons.mp inside with sign | digit
        · exact .inr (.inr (.inr sign))
        · exact .inl (denotes.isDigit c digit)

def yearFiguresAt : List Char → Option (Int × List Char)
  | '+' :: rest => (allDigitsAt rest).map fun (number, rest) => ((number : Int), rest)
  | '-' :: rest => (allDigitsAt rest).map fun (number, rest) => (-(number : Int), rest)
  | rest => (digitsAt 4 rest).map fun (number, rest) => ((number : Int), rest)

theorem yearFiguresAt_eq_some_iff {text rest : List Char} {year : Int} :
    yearFiguresAt text = some (year, rest) ↔
      ∃ part, text = part ++ rest ∧ YearFigures rest.head? part year := by
  constructor
  · intro read
    unfold yearFiguresAt at read
    split at read
    all_goals
      simp only [Option.map_eq_some_iff, Prod.exists, Prod.mk.injEq] at read
      obtain ⟨number, _, taken, rfl, rfl⟩ := read
    · obtain ⟨digits, rfl, denotes, ended⟩ := allDigitsAt_eq_some_iff.mp taken
      exact ⟨_, rfl, .plus denotes ended⟩
    · obtain ⟨digits, rfl, denotes, ended⟩ := allDigitsAt_eq_some_iff.mp taken
      exact ⟨_, rfl, .minus denotes ended⟩
    · obtain ⟨digits, rfl, figures⟩ := digitsAt_eq_some_iff.mp taken
      exact ⟨_, rfl, .unsigned figures⟩
  · rintro ⟨part, rfl, figures⟩
    cases figures with
    | unsigned figures =>
        have taken := digitsAt_eq_some_iff.mpr ⟨part, rfl, figures⟩
        have unsigned {sign : Char} {others : List Char} (other : sign.isDigit = false) :
            part ++ rest ≠ sign :: others := by
          obtain ⟨c, digits, rfl⟩ := List.exists_cons_of_ne_nil figures.denotes.ne_nil
          have digit := figures.denotes.isDigit c (List.mem_cons_self ..)
          exact fun starts => ne_of_isDigit digit other (List.cons.inj starts).1
        unfold yearFiguresAt
        split
        · rename_i starts
          exact absurd starts (unsigned rfl)
        · rename_i starts
          exact absurd starts (unsigned rfl)
        · rw [taken]
          rfl
    | plus denotes ended =>
        rw [List.cons_append, yearFiguresAt, allDigitsAt_eq_some_iff.mpr ⟨_, rfl, denotes, ended⟩]
        rfl
    | minus denotes ended =>
        rw [List.cons_append, yearFiguresAt, allDigitsAt_eq_some_iff.mpr ⟨_, rfl, denotes, ended⟩]
        rfl

theorem yearAt_eq_some_iff {text rest : List Char} {year : Int} :
    yearAt text = some (year, rest) ↔ ∃ part, text = part ++ rest ∧ YearText rest.head? part year :=
  afterBlanks_iff yearFiguresAt_eq_some_iff YearFigures.exists_head?

/-- Blanks between the date and the time count as blanks before the hour. -/
theorem gapAt_numberAt_iff {layout : Layout} {text rest : List Char} {number : Nat} :
    (∃ behind, layout.gapAt text = some behind ∧ numberAt behind = some (number, rest)) ↔
      ∃ part, text = layout.timeMark.toList ++ (part ++ rest) ∧
        NumberText rest.head? part number := by
  unfold Layout.gapAt
  cases layout.timeMark with
  | none =>
      have skipped : numberAt (skipBlanks text) = numberAt text := by
        rw [numberAt, numberAt, skipBlanks_skipBlanks]
      simp only [Option.some.injEq, exists_eq_left', Option.toList_none, List.nil_append]
      rw [skipped, numberAt_eq_some_iff]
  | some mark => simp [markAt_eq_some_iff, numberAt_eq_some_iff]

theorem head?_gap {layout : Layout} {hour rest : List Char} (nonempty : hour ≠ []) :
    (layout.timeMark.toList ++ (hour ++ rest)).head? = layout.timeMark.or hour.head? := by
  rw [List.head?_append, List.head?_append_of_ne_nil _ nonempty]
  cases layout.timeMark <;> rfl

theorem timeAt_eq_some_iff {layout : Layout} {text rest : List Char} {time : LocalTime} :
    layout.timeAt text = some (time, rest) ↔
      ∃ part, text = part ++ rest ∧ layout.Spells rest.head? part time := by
  simp only [Layout.timeAt, Option.bind_eq_bind, Option.bind_eq_some_iff, Prod.exists,
    Option.some.injEq, Prod.mk.injEq, markAt_eq_some_iff]
  constructor
  · rintro ⟨_, _, yearRead, _, rfl, _, _, monthRead, _, rfl, _, _, dayRead, _, gap, _, _, hourRead,
      _, rfl, _, _, minuteRead, _, rfl, _, _, secondRead, rfl, rfl⟩
    obtain ⟨year, rfl, yearText⟩ := yearAt_eq_some_iff.mp yearRead
    obtain ⟨month, rfl, monthText⟩ := numberAt_eq_some_iff.mp monthRead
    obtain ⟨day, rfl, dayText⟩ := numberAt_eq_some_iff.mp dayRead
    obtain ⟨hour, rfl, hourText⟩ := gapAt_numberAt_iff.mp ⟨_, gap, hourRead⟩
    obtain ⟨minute, rfl, minuteText⟩ := numberAt_eq_some_iff.mp minuteRead
    obtain ⟨second, rfl, secondText⟩ := numberAt_eq_some_iff.mp secondRead
    rw [head?_gap hourText.ne_nil] at dayText
    exact ⟨_, by simp, year, month, day, hour, minute, second, rfl, yearText, monthText, dayText,
      hourText, minuteText, secondText⟩
  · rintro ⟨_, rfl, year, month, day, hour, minute, second, rfl, yearText, monthText, dayText,
      hourText, minuteText, secondText⟩
    let behindHour := ':' :: (minute ++ ':' :: (second ++ rest))
    have dayText : NumberText (layout.timeMark.toList ++ (hour ++ behindHour)).head? day time.day := by
      rwa [head?_gap hourText.ne_nil]
    obtain ⟨_, gap, hourRead⟩ :
        ∃ behind, layout.gapAt (layout.timeMark.toList ++ (hour ++ behindHour)) = some behind ∧
          numberAt behind = some (time.hour, behindHour) :=
      gapAt_numberAt_iff.mpr ⟨hour, rfl, hourText⟩
    simp only [List.append_assoc, List.cons_append]
    exact ⟨_, _, yearAt_eq_some_iff.mpr ⟨year, rfl, yearText⟩, _, rfl,
      _, _, numberAt_eq_some_iff.mpr ⟨month, rfl, monthText⟩, _, rfl,
      _, _, numberAt_eq_some_iff.mpr ⟨day, rfl, dayText⟩, _, gap,
      _, _, hourRead, _, rfl, _, _, numberAt_eq_some_iff.mpr ⟨minute, rfl, minuteText⟩, _, rfl,
      _, _, numberAt_eq_some_iff.mpr ⟨second, rfl, secondText⟩, rfl, rfl⟩

/-- What is read are the texts that say a time which a clock can show, and it is read as that time. -/
theorem read?_eq_some_iff {layout : Layout} {text : List Char} {time : LocalTime} :
    layout.read? text = some time ↔ layout.Spells none text time ∧ time.IsReal := by
  have whole : layout.timeAt text = some (time, []) ↔ layout.Spells none text time := by
    rw [timeAt_eq_some_iff]
    simp
  rw [← whole]
  unfold Layout.read?
  cases layout.timeAt text with
  | none => simp
  | some found =>
      obtain ⟨clock, rest⟩ := found
      cases rest with
      | cons c others => simp
      | nil =>
          simp only [Option.ite_none_right_eq_some, Option.some.injEq, Prod.mk.injEq, and_true]
          constructor
          · rintro ⟨real, rfl⟩
            exact ⟨rfl, real⟩
          · rintro ⟨rfl, real⟩
            exact ⟨real, rfl⟩

section

variable {layout : Layout} {next : Option Char} {text : List Char} {time : LocalTime}

theorem Layout.Spells.dateMark_mem (spells : layout.Spells next text time) :
    layout.dateMark ∈ text := by
  obtain ⟨year, month, day, hour, minute, second, rfl, -⟩ := spells
  simp

theorem Layout.Spells.timeMark_mem (spells : layout.Spells next text time) :
    ∀ mark ∈ layout.timeMark, mark ∈ text := by
  obtain ⟨year, month, day, hour, minute, second, rfl, -⟩ := spells
  intro mark member
  simp [Option.mem_toList.mpr member]

theorem Layout.Spells.not_mem (spells : layout.Spells next text time) {c : Char}
    (other : c.isDigit = false) (visible : Text.isBlank c = false) (plain : c ∉ ['+', '-', ':'])
    (noMark : c ∉ layout.dateMark :: layout.timeMark.toList) : c ∉ text := by
  obtain ⟨year, month, day, hour, minute, second, rfl, yearText, monthText, dayText, hourText,
    minuteText, secondText⟩ := spells
  have inYear : c ∉ year := by
    intro member
    rcases yearText.mem member with digit | blank | sign | sign <;> simp_all
  have inNumber {next : Option Char} {part : List Char} {number : Nat}
      (numberText : NumberText next part number) : c ∉ part := by
    intro member
    rcases numberText.mem member with digit | blank <;> simp_all
  simp only [List.mem_cons, List.not_mem_nil, or_false, not_or] at plain noMark
  simp [inYear, plain, noMark, inNumber monthText, inNumber dayText, inNumber hourText,
    inNumber minuteText, inNumber secondText]

/-- Two colons are in the time of day, and others only where the layout has them as marks. -/
theorem Layout.Spells.count_colon (spells : layout.Spells next text time) :
    text.count ':' =
      2 + 2 * [layout.dateMark].count ':' + layout.timeMark.toList.count ':' := by
  obtain ⟨year, month, day, hour, minute, second, rfl, yearText, monthText, dayText, hourText,
    minuteText, secondText⟩ := spells
  have inYear : year.count ':' = 0 := List.count_eq_zero.mpr fun member =>
    absurd (yearText.mem member) (by decide)
  have inNumber {next : Option Char} {part : List Char} {number : Nat}
      (numberText : NumberText next part number) : part.count ':' = 0 :=
    List.count_eq_zero.mpr fun member => absurd (numberText.mem member) (by decide)
  simp only [List.count_append, List.count_cons, List.count_nil, beq_self_eq_true, if_true, inYear,
    inNumber monthText, inNumber dayText, inNumber hourText, inNumber minuteText,
    inNumber secondText]
  omega

end

end PhotoTags.Calendar
