import Mathlib.Data.List.Basic
import Mathlib.Data.List.TakeWhile
import PhotoTags.Json.Document
import PhotoTags.Json.Token
import PhotoTags.Proofs.Text.Numeral

/-!
Words, numbers and strings as they are written, taken as tokens. A string comes back whatever its
characters are; a number does if nothing follows that could belong to it.
-/

namespace PhotoTags.Json

theorem exists_hexadecimal {number : Nat} (small : number < 0x20) :
    ∃ a b c d, Text.padStart 4 '0' (Text.hexadecimal number) = [a, b, c, d] ∧
      hexNumber? [a, b, c, d] = some number := by
  have all : ∀ number < 0x20, (Text.padStart 4 '0' (Text.hexadecimal number)).length = 4 ∧
      hexNumber? (Text.padStart 4 '0' (Text.hexadecimal number)) = some number := by decide
  obtain ⟨four, read⟩ := all number small
  match digits : Text.padStart 4 '0' (Text.hexadecimal number), four with
  | [a, b, c, d], _ => exact ⟨a, b, c, d, rfl, digits ▸ read⟩

def marks : List (Char × Char) :=
  [('\x22', '\x22'), ('\\', '\\'), ('\x08', 'b'), ('\x0c', 'f'), ('\n', 'n'), ('\r', 'r'),
    ('\t', 't')]

theorem stringChar_of_mem_marks {c mark : Char} (member : (c, mark) ∈ marks) :
    mark ≠ 'u' ∧ escaped? mark = some c ∧ stringChar c = ['\\', mark] := by
  have all : ∀ pair ∈ marks, pair.2 ≠ 'u' ∧ escaped? pair.2 = some pair.1 ∧
      stringChar pair.1 = ['\\', pair.2] := by decide
  exact all (c, mark) member

/-- A character is written as a mark behind a backslash, by its number, or as itself. -/
theorem stringChar_cases (c : Char) :
    (∃ mark, mark ≠ 'u' ∧ escaped? mark = some c ∧ stringChar c = ['\\', mark]) ∨
    (c.toNat < 0x20 ∧
      stringChar c = '\\' :: 'u' :: Text.padStart 4 '0' (Text.hexadecimal c.toNat)) ∨
    (c ≠ '\x22' ∧ c ≠ '\\' ∧ ¬ c.toNat < 0x20 ∧ stringChar c = [c]) := by
  by_cases marked : ∃ mark, (c, mark) ∈ marks
  · obtain ⟨mark, member⟩ := marked
    exact .inl ⟨mark, stringChar_of_mem_marks member⟩
  · simp only [marks, List.mem_cons, Prod.mk.injEq, List.not_mem_nil, or_false, not_exists, not_or,
      not_and] at marked
    obtain ⟨quote, backslash, backspace, feed, line, carriage, tab⟩ :
        c ≠ '\x22' ∧ c ≠ '\\' ∧ c ≠ '\x08' ∧ c ≠ '\x0c' ∧ c ≠ '\n' ∧ c ≠ '\r' ∧ c ≠ '\t' := by
      refine ⟨?_, ?_, ?_, ?_, ?_, ?_, ?_⟩ <;> rintro rfl <;> simp at marked
    have rest : stringChar c = if c.toNat < 0x20 then
        ['\\', 'u'] ++ Text.padStart 4 '0' (Text.hexadecimal c.toNat) else [c] := by
      simp only [stringChar, quote, backslash, backspace, feed, line, carriage, tab, if_false]
    by_cases control : c.toNat < 0x20
    · exact .inr (.inl ⟨control, by rw [rest, if_pos control]; rfl⟩)
    · exact .inr (.inr ⟨quote, backslash, control, by rw [rest, if_neg control]⟩)

theorem unitsAt_escape {mark c : Char} (units : List Nat) (rest : List Char) (other : mark ≠ 'u')
    (escape : escaped? mark = some c) :
    unitsAt units ('\\' :: mark :: rest) = unitsAt (c.toNat :: units) rest := by
  rw [unitsAt]
  · simp only [escape]
  · exact fun _ _ _ _ _ same _ => other same

theorem unitsAt_plain {c : Char} (units : List Nat) (rest : List Char) (unquoted : c ≠ '\x22')
    (unescaped : c ≠ '\\') (visible : ¬ c.toNat < 0x20) :
    unitsAt units (c :: rest) = unitsAt (c.toNat :: units) rest := by
  rw [unitsAt]
  · simp [unescaped, unquoted, visible]
  · exact fun _ _ _ _ _ same => absurd same unescaped
  · exact fun _ _ same => absurd same unescaped

theorem unitsAt_stringChar (units : List Nat) (c : Char) (rest : List Char) :
    unitsAt units (stringChar c ++ rest) = unitsAt (c.toNat :: units) rest := by
  rcases stringChar_cases c with ⟨mark, other, escape, written⟩ | ⟨control, written⟩ |
    ⟨unquoted, unescaped, visible, written⟩
  · rw [written]
    exact unitsAt_escape units rest other escape
  · obtain ⟨x, y, z, w, digits, read⟩ := exists_hexadecimal control
    rw [written, digits]
    simp only [List.cons_append, List.nil_append, unitsAt, read]
  · rw [written]
    exact unitsAt_plain units rest unquoted unescaped visible

theorem unitsAt_stringText (units : List Nat) (text rest : List Char) :
    unitsAt units (text.flatMap stringChar ++ '\x22' :: rest) =
      some ((text.map Char.toNat).reverse ++ units, rest) := by
  induction text generalizing units with
  | nil => simp [unitsAt]
  | cons c text ih =>
      rw [List.flatMap_cons, List.append_assoc, unitsAt_stringChar, ih]
      simp

theorem not_isHalf (c : Char) : isLowHalf c.toNat = false ∧ isHighHalf c.toNat = false := by
  have valid : c.toNat < 0xD800 ∨ 0xDFFF < c.toNat ∧ c.toNat < 0x110000 := c.valid
  simp only [isLowHalf, isHighHalf, Bool.and_eq_false_iff, decide_eq_false_iff_not]
  omega

/-- Characters have no halves among them, so that each of them is its own unit. -/
theorem textOf?_units (text backwards : List Char) :
    textOf? text (backwards.map Char.toNat) = some (backwards.reverse ++ text) := by
  induction backwards generalizing text with
  | nil => rfl
  | cons c backwards ih =>
      obtain ⟨noLow, noHigh⟩ := not_isHalf c
      cases backwards with
      | nil => simp [textOf?, noLow, noHigh, Char.ofNat_toNat]
      | cons d others =>
          have later := ih (c :: text)
          simp only [List.map_cons] at later ⊢
          simp only [textOf?, noLow, noHigh, Char.ofNat_toNat, Bool.false_eq_true, if_false, later]
          simp

theorem tokenAt_stringText (text : String) (rest : List Char) :
    tokenAt (stringText text ++ rest) = some (.string (some text), rest) := by
  have units := unitsAt_stringText [] text.toList rest
  rw [List.append_nil, ← List.map_reverse] at units
  have whole := textOf?_units [] text.toList.reverse
  rw [List.reverse_reverse, List.append_nil] at whole
  have read : stringAt (text.toList.flatMap stringChar ++ '\x22' :: rest) =
      some (.string (some text), rest) := by
    simp only [stringAt, units, Option.map_some, whole, String.ofList_toList]
  simpa [stringText, tokenAt] using read

theorem tokenAt_word {text : List Char} {value : Option Bool} (member : (text, value) ∈ words)
    (rest : List Char) : tokenAt (text ++ rest) = some (.word value, rest) := by
  simp only [words, List.mem_cons, Prod.mk.injEq, List.not_mem_nil, or_false] at member
  rcases member with ⟨rfl, rfl⟩ | ⟨rfl, rfl⟩ | ⟨rfl, rfl⟩ <;> rfl

def Ends (rest : List Char) : Prop :=
  ∀ c ∈ rest.head?, isNumberChar c = false

theorem tokenAt_number {literal rest : List Char} (isLiteral : isNumber literal = true)
    (all : ∀ c ∈ literal, isNumberChar c = true) (ends : Ends rest) :
    tokenAt (literal ++ rest) = some (.number literal, rest) := by
  obtain ⟨first, others, rfl⟩ : ∃ first others, literal = first :: others := by
    refine List.exists_cons_of_ne_nil ?_
    rintro rfl
    exact absurd isLiteral (by decide)
  have other (mark : Char) (outside : isNumberChar mark = false) : first ≠ mark := by
    rintro rfl
    exact absurd ((all first (List.mem_cons_self ..)).symm.trans outside) (by decide)
  have stops : rest.takeWhile isNumberChar = [] ∧ rest.dropWhile isNumberChar = rest := by
    cases rest with
    | nil => exact ⟨rfl, rfl⟩
    | cons c rest => simp [ends c rfl]
  have taken : (first :: (others ++ rest)).takeWhile isNumberChar = first :: others := by
    rw [← List.cons_append, List.takeWhile_append_of_pos all, stops.1, List.append_nil]
  have dropped : (first :: (others ++ rest)).dropWhile isNumberChar = rest := by
    rw [← List.cons_append, List.dropWhile_append_of_pos all, stops.2]
  have noWord : words.findSome? (fun word =>
      (Text.after? word.1 (first :: (others ++ rest))).map (Token.word word.2, ·)) = none := by
    simp [words, Text.after?, (other 't' rfl).symm, (other 'f' rfl).symm, (other 'n' rfl).symm]
  rw [List.cons_append, tokenAt, if_neg (other _ rfl), if_neg (other _ rfl), if_neg (other _ rfl),
    if_neg (other _ rfl), if_neg (other _ rfl), if_neg (other _ rfl), if_neg (other _ rfl),
    plainTokenAt, noWord]
  simp only [taken, dropped, isLiteral, if_true]

theorem head?_decimal {number : Nat} (positive : 0 < number) :
    (Text.decimal number).head? ≠ some '0' := by
  induction number using Nat.strongRecOn with
  | ind number ih =>
      by_cases single : number < 10
      · have digits : ∀ digit < 10, 0 < digit → [Nat.digitChar digit].head? ≠ some '0' := by decide
        rw [Text.decimal, Nat.toDigits_of_lt_base single]
        exact digits number single positive
      · have large : 10 ≤ number := Nat.not_lt.mp single
        rw [Text.decimal, Nat.toDigits_of_base_le (by decide) large,
          List.head?_append_of_ne_nil _ Nat.toDigits_ne_nil]
        exact ih (number / 10) (by omega) (by omega)

theorem isNumber_digits {digits : List Char} (nonempty : digits ≠ [])
    (all : ∀ c ∈ digits, c.isDigit = true) (leading : digits.head? ≠ some '0' ∨ digits.length = 1) :
    isNumber digits = true ∧ isNumber ('-' :: digits) = true := by
  have whole : digits.takeWhile Char.isDigit = digits := List.takeWhile_eq_self_iff.mpr all
  have none : digits.dropWhile Char.isDigit = [] := List.dropWhile_eq_nil_iff.mpr all
  have plain : isNumber ('-' :: digits) = true := by
    simp [isNumber, whole, none, nonempty, isFraction, isExponent]
    simpa using leading
  refine ⟨?_, plain⟩
  rw [isNumber]
  · exact plain
  · rintro rest rfl
    exact absurd (all '-' (List.mem_cons_self ..)) (by decide)

theorem isNumber_signedDecimal (value : Int) :
    isNumber (Text.signedDecimal value) = true ∧
      ∀ c ∈ Text.signedDecimal value, isNumberChar c = true := by
  obtain ⟨nonempty, digits⟩ := (Text.isDigits_iff _).mp (Text.isDigits_decimal value.natAbs)
  have leading : (Text.decimal value.natAbs).head? ≠ some '0' ∨
      (Text.decimal value.natAbs).length = 1 := by
    by_cases zero : value.natAbs = 0
    · exact .inr (by rw [zero]; rfl)
    · exact .inl (head?_decimal (Nat.pos_of_ne_zero zero))
  have literal := isNumber_digits nonempty digits leading
  have each (c : Char) (member : c ∈ Text.decimal value.natAbs) : isNumberChar c = true := by
    simp [isNumberChar, digits c member]
  unfold Text.signedDecimal
  split
  · refine ⟨literal.2, fun c member => ?_⟩
    rcases List.mem_cons.mp member with rfl | digit
    · rfl
    · exact each c digit
  · exact ⟨literal.1, each⟩

end PhotoTags.Json
