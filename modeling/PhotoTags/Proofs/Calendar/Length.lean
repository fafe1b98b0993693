import PhotoTags.Proofs.Calendar.Writing
import PhotoTags.Proofs.Decimal.Length

/-!
How long written times get. Only readings that a clock can show are read, and offsets of less than a
day, so that their texts have bounded lengths.
-/

namespace PhotoTags.Calendar

theorem isReal_of_read? {layout : Layout} {text : List Char} {time : LocalTime}
    (read : layout.read? text = some time) : time.IsReal :=
  (read?_eq_some_iff.mp read).2

theorem natAbs_of_checked {hours minutes : Nat} {negative : Bool} {text rest : List Char}
    {offset : Int}
    (checked : (if hours < 24 ∧ minutes < 60 then
      some (if negative then -((hours * 60 + minutes : Nat) : Int)
        else ((hours * 60 + minutes : Nat) : Int), text)
      else none) = some (offset, rest)) : offset.natAbs < 1440 := by
  split at checked
  · obtain ⟨rfl, -⟩ := Prod.mk.inj (Option.some.inj checked)
    split <;> omega
  · simp at checked

theorem natAbs_of_offsetWith {gapAt : List Char → Option (List Char)} {text rest : List Char}
    {offset : Int} (read : offsetWith gapAt text = some (offset, rest)) : offset.natAbs < 1440 := by
  unfold offsetWith at read
  rcases text with _ | ⟨c, digits⟩
  · simp at read
  · dsimp only at read
    split at read
    · simp only [Option.bind_eq_bind, Option.bind_eq_some_iff] at read
      obtain ⟨digits, -, hours, -, gap, -, minutes, -, checked⟩ := read
      exact natAbs_of_checked checked
    · split at read
      · simp only [Option.bind_eq_bind, Option.bind_eq_some_iff] at read
        obtain ⟨digits, -, hours, -, gap, -, minutes, -, checked⟩ := read
        exact natAbs_of_checked checked
      · simp at read

theorem length_twoDigits_le {number bits : Nat} (small : number < 2 ^ bits) :
    (twoDigits number).length ≤ bits + 2 := by
  have digits := Text.length_decimal_le small
  rw [twoDigits, Text.length_padStart]
  omega

theorem length_yearText_le {year : Int} {bits : Nat} (small : year.natAbs < 2 ^ bits) :
    (yearText year).length ≤ bits + 5 := by
  have digits := Text.length_decimal_le small
  have padded := Text.length_padStart 4 '0' (Text.decimal year.natAbs)
  unfold yearText
  dsimp only
  split
  · rw [List.length_cons]
    omega
  · split
    · rw [List.length_cons]
      omega
    · omega

theorem length_write_le (layout : Layout) {time : LocalTime} (real : time.IsReal) :
    (layout.write time).length ≤ 68 := by
  obtain ⟨early, late, -, month, -, day, hour, minute, second⟩ := real
  unfold firstYear at early
  unfold lastYear at late
  have longest := monthLength_le time.year time.month
  have year := length_yearText_le (show time.year.natAbs < 2 ^ 18 by omega)
  have month := length_twoDigits_le (show time.month < 2 ^ 6 by omega)
  have day := length_twoDigits_le (show time.day < 2 ^ 6 by omega)
  have hour := length_twoDigits_le (show time.hour < 2 ^ 6 by omega)
  have minute := length_twoDigits_le (show time.minute < 2 ^ 6 by omega)
  have second := length_twoDigits_le (show time.second < 2 ^ 6 by omega)
  simp only [Layout.write, List.length_append, List.length_cons]
  omega

theorem length_timestampText_le {time : LocalTime} (real : time.IsReal) {offset : Int}
    (near : offset.natAbs < 1440) : (timestampText time offset).length ≤ 86 := by
  have clock := length_write_le .dashesT real
  have hours := length_twoDigits_le (show offset.natAbs / 60 < 2 ^ 6 by omega)
  have minutes := length_twoDigits_le (show offset.natAbs % 60 < 2 ^ 6 by omega)
  simp only [timestampText, offsetText, List.length_append, List.length_cons]
  omega

end PhotoTags.Calendar
