import Mathlib.Data.List.DropRight
import Mathlib.Data.List.TakeWhile
import PhotoTags.Calendar.Timestamp
import PhotoTags.Proofs.Text.Numeral

/-!
Numbers in dates, as they stand in a text. Digits are taken as far as they go, but not more than fit;
fewer are taken only where the next character is no digit. In some places blanks may stand before
them.
-/

namespace PhotoTags.Text

theorem drop_length_takeWhile (inClass : Char → Bool) (text : List Char) :
    text.drop (text.takeWhile inClass).length = text.dropWhile inClass := by
  have behind : (text.takeWhile inClass ++ text.dropWhile inClass).drop
      (text.takeWhile inClass).length = text.dropWhile inClass := List.drop_left
  rwa [List.takeWhile_append_dropWhile] at behind

end PhotoTags.Text

namespace PhotoTags.Calendar

theorem toNat_of_isDigit {c : Char} (digit : c.isDigit = true) : 48 ≤ c.toNat ∧ c.toNat ≤ 57 := by
  simpa [Char.isDigit, UInt32.le_iff_toNat_le] using digit

theorem ne_of_isDigit {c mark : Char} (digit : c.isDigit = true) (other : mark.isDigit = false) :
    c ≠ mark := by
  rintro rfl
  simp [other] at digit

theorem not_isBlank_of_isDigit {c : Char} (digit : c.isDigit = true) : Text.isBlank c = false := by
  have bounds := toNat_of_isDigit digit
  simp only [Text.isBlank, Text.inRanges, Text.blankRanges, List.any_cons, List.any_nil,
    Bool.or_false, Bool.or_eq_false_iff, Bool.and_eq_false_iff, decide_eq_false_iff_not]
  omega

def DigitsEnd (next : Option Char) : Prop :=
  ∀ c ∈ next, c.isDigit = false

structure Figures (most : Nat) (next : Option Char) (digits : List Char) (number : Nat) : Prop where
  denotes : Text.Digits digits number
  short : digits.length ≤ most
  stops : digits.length = most ∨ DigitsEnd next

structure ExactFigures (count : Nat) (digits : List Char) (number : Nat) : Prop where
  denotes : Text.Digits digits number
  full : digits.length = count

def AfterBlanks {α : Type} (Numeral : List Char → α → Prop) (text : List Char) (value : α) : Prop :=
  ∃ blanks numeral, text = blanks ++ numeral ∧ (∀ c ∈ blanks, Text.isBlank c = true) ∧
    Numeral numeral value

def NumberText (next : Option Char) : List Char → Nat → Prop :=
  AfterBlanks (Figures 2 next)

theorem takeWhile_of_digitsEnd {text : List Char} (ended : DigitsEnd text.head?) :
    text.takeWhile Char.isDigit = [] := by
  cases text with
  | nil => rfl
  | cons c rest => exact List.takeWhile_cons_of_neg (by simp [ended c rfl])

theorem digitsEnd_dropWhile (text : List Char) : DigitsEnd (text.dropWhile Char.isDigit).head? := by
  intro c first
  have stopped := List.head?_dropWhile_not Char.isDigit text
  rw [Option.mem_def.mp first] at stopped
  exact stopped

theorem digitsEnd_take_iff {count : Nat} (positive : 0 < count) {text : List Char} :
    DigitsEnd (text.take count).head? ↔ DigitsEnd text.head? := by
  rw [List.head?_take, if_neg (Nat.ne_of_gt positive)]

theorem digitsAt_eq_some_iff {most number : Nat} {text rest : List Char} :
    digitsAt most text = some (number, rest) ↔
      ∃ digits, text = digits ++ rest ∧ Figures most rest.head? digits number := by
  simp only [digitsAt, Option.map_eq_some_iff, Text.natural?_eq_some_iff, Prod.mk.injEq]
  constructor
  · rintro ⟨_, denotes, rfl, rfl⟩
    have starts : (text.take most).takeWhile Char.isDigit <+: text :=
      (List.takeWhile_prefix _).trans (List.take_prefix _ _)
    have short : ((text.take most).takeWhile Char.isDigit).length ≤ most := by
      have fewer := (List.takeWhile_prefix Char.isDigit (l := text.take most)).length_le
      exact Nat.le_trans fewer (List.length_take_le _ _)
    refine ⟨_, (List.prefix_iff_eq_append.mp starts).symm, denotes, short, ?_⟩
    rcases Nat.eq_or_lt_of_le short with full | shorter
    · exact .inl full
    · refine .inr ((digitsEnd_take_iff (Nat.sub_pos_of_lt shorter)).mp ?_)
      rw [← List.drop_take, Text.drop_length_takeWhile]
      exact digitsEnd_dropWhile _
  · rintro ⟨digits, rfl, denotes, short, stops⟩
    have behind : (rest.take (most - digits.length)).takeWhile Char.isDigit = [] := by
      rcases stops with full | ended
      · rw [full, Nat.sub_self]
        rfl
      · cases most - digits.length with
        | zero => rfl
        | succ more => exact takeWhile_of_digitsEnd ((digitsEnd_take_iff more.succ_pos).mpr ended)
    have taken : ((digits ++ rest).take most).takeWhile Char.isDigit = digits := by
      rw [List.take_append, List.take_of_length_le short,
        List.takeWhile_append_of_pos denotes.isDigit, behind, List.append_nil]
    rw [taken]
    exact ⟨number, denotes, rfl, List.drop_left⟩

theorem allDigitsAt_eq_some_iff {number : Nat} {text rest : List Char} :
    allDigitsAt text = some (number, rest) ↔
      ∃ digits, text = digits ++ rest ∧ Text.Digits digits number ∧ DigitsEnd rest.head? := by
  simp only [allDigitsAt, Option.map_eq_some_iff, Text.natural?_eq_some_iff, Prod.mk.injEq]
  constructor
  · rintro ⟨_, denotes, rfl, rfl⟩
    exact ⟨_, List.takeWhile_append_dropWhile.symm, denotes, digitsEnd_dropWhile text⟩
  · rintro ⟨digits, rfl, denotes, ended⟩
    rw [List.takeWhile_append_of_pos denotes.isDigit, List.dropWhile_append_of_pos denotes.isDigit,
      ← Text.drop_length_takeWhile Char.isDigit rest, takeWhile_of_digitsEnd ended, List.append_nil]
    exact ⟨number, denotes, rfl, rfl⟩

theorem exactDigitsAt_eq_some_iff {count number : Nat} {text rest : List Char} :
    exactDigitsAt count text = some (number, rest) ↔
      ∃ digits, text = digits ++ rest ∧ ExactFigures count digits number := by
  unfold exactDigitsAt
  constructor
  · intro read
    split at read
    · rename_i full
      simp only [Option.map_eq_some_iff, Text.natural?_eq_some_iff, Prod.mk.injEq] at read
      obtain ⟨_, denotes, rfl, rfl⟩ := read
      exact ⟨_, (List.take_append_drop count text).symm, denotes, full⟩
    · simp at read
  · rintro ⟨digits, rfl, denotes, rfl⟩
    rw [List.take_left, if_pos rfl, Text.natural?_eq_some_iff.mpr denotes, List.drop_left]
    rfl

theorem markAt_eq_some_iff {mark : Char} {text rest : List Char} :
    markAt mark text = some rest ↔ text = mark :: rest := by
  unfold markAt
  split
  · simp
  · split
    · rename_i same
      simp [same]
    · rename_i differ
      simp [differ]

theorem skipBlanks_append {blanks text : List Char} (blank : ∀ c ∈ blanks, Text.isBlank c = true)
    (visible : ∀ c ∈ text.head?, Text.isBlank c = false) : skipBlanks (blanks ++ text) = text := by
  rw [skipBlanks, List.dropWhile_append_of_pos blank]
  cases text with
  | nil => rfl
  | cons c rest => exact List.dropWhile_cons_of_neg (by simp [visible c rfl])

/-- Behind any blanks a reader takes what it takes by itself, if no blank starts that. -/
theorem afterBlanks_iff {α : Type} {reader : List Char → Option (α × List Char)} {value : α}
    {rest : List Char} {Numeral : List Char → α → Prop}
    (reads : ∀ {text}, reader text = some (value, rest) ↔
      ∃ part, text = part ++ rest ∧ Numeral part value)
    (visible : ∀ {part}, Numeral part value → ∃ c ∈ part.head?, Text.isBlank c = false)
    {text : List Char} :
    reader (skipBlanks text) = some (value, rest) ↔
      ∃ part, text = part ++ rest ∧ AfterBlanks Numeral part value := by
  rw [reads]
  constructor
  · rintro ⟨part, same, numeral⟩
    have whole : text.takeWhile Text.isBlank ++ skipBlanks text = text :=
      List.takeWhile_append_dropWhile
    rw [same] at whole
    refine ⟨text.takeWhile Text.isBlank ++ part, ?_, _, part, rfl, ?_, numeral⟩
    · rw [List.append_assoc, whole]
    · exact fun c member => List.mem_takeWhile_imp member
  · rintro ⟨_, rfl, blanks, part, rfl, blank, numeral⟩
    obtain ⟨c, first, seen⟩ := visible numeral
    refine ⟨part, ?_, numeral⟩
    rw [List.append_assoc]
    refine skipBlanks_append blank fun d starts => ?_
    rw [List.head?_append, Option.mem_def.mp first] at starts
    exact Option.some.inj starts ▸ seen

theorem exists_head?_of_digits {digits : List Char} {number : Nat}
    (denotes : Text.Digits digits number) : ∃ c ∈ digits.head?, Text.isBlank c = false := by
  obtain ⟨c, others, rfl⟩ := List.exists_cons_of_ne_nil denotes.ne_nil
  exact ⟨c, rfl, not_isBlank_of_isDigit (denotes.isDigit c (List.mem_cons_self ..))⟩

theorem numberAt_eq_some_iff {text rest : List Char} {number : Nat} :
    numberAt text = some (number, rest) ↔
      ∃ part, text = part ++ rest ∧ NumberText rest.head? part number :=
  afterBlanks_iff digitsAt_eq_some_iff fun figures => exists_head?_of_digits figures.denotes

theorem skipBlanks_skipBlanks (text : List Char) : skipBlanks (skipBlanks text) = skipBlanks text :=
  List.dropWhile_idempotent _ _

section

variable {next : Option Char} {part : List Char} {number : Nat}

theorem NumberText.ne_nil (numberText : NumberText next part number) : part ≠ [] := by
  obtain ⟨blanks, digits, rfl, -, figures⟩ := numberText
  exact List.append_ne_nil_of_right_ne_nil blanks figures.denotes.ne_nil

theorem NumberText.mem (numberText : NumberText next part number) {c : Char} (member : c ∈ part) :
    c.isDigit = true ∨ Text.isBlank c = true := by
  obtain ⟨blanks, digits, rfl, blank, figures⟩ := numberText
  rcases List.mem_append.mp member with before | digit
  · exact .inr (blank c before)
  · exact .inl (figures.denotes.isDigit c digit)

end

end PhotoTags.Calendar
