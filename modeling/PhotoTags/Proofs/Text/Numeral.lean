import Mathlib.Data.List.Induction
import PhotoTags.Text.Numeral

/-!
Numerals as a grammar: digits denote a number by their places, and one plus sign may stand in front
of them. A numeral below a bound is read as its number, and nothing else is read at all.
-/

namespace PhotoTags.Text

inductive Digits : List Char → Nat → Prop
  | single {c : Char} : c.isDigit = true → Digits [c] (c.toNat - '0'.toNat)
  | snoc {digits : List Char} {number : Nat} {c : Char} : Digits digits number →
      c.isDigit = true → Digits (digits ++ [c]) (10 * number + (c.toNat - '0'.toNat))

def Numeral (bound : Nat) (text : List Char) (number : Nat) : Prop :=
  number < bound ∧ (Digits text number ∨ ∃ digits, text = '+' :: digits ∧ Digits digits number)

theorem Digits.isDigit {digits : List Char} {number : Nat} (denotes : Digits digits number) :
    ∀ c ∈ digits, c.isDigit = true := by
  induction denotes with
  | single digit => simpa using digit
  | snoc _ digit ih =>
      intro c member
      rcases List.mem_append.mp member with earlier | last
      · exact ih c earlier
      · rw [List.mem_singleton.mp last]
        exact digit

theorem Digits.ne_nil {digits : List Char} {number : Nat} (denotes : Digits digits number) :
    digits ≠ [] := by
  cases denotes <;> simp

theorem Digits.ofDigitChars {digits : List Char} {number : Nat} (denotes : Digits digits number) :
    Nat.ofDigitChars 10 digits 0 = number := by
  induction denotes with
  | single _ => simp [Nat.ofDigitChars_cons]
  | snoc _ _ ih => simp [Nat.ofDigitChars_append, Nat.ofDigitChars_cons, ih]

theorem digits_ofDigitChars (digits : List Char) (nonempty : digits ≠ [])
    (allDigits : ∀ c ∈ digits, c.isDigit = true) :
    Digits digits (Nat.ofDigitChars 10 digits 0) := by
  induction digits using List.reverseRecOn with
  | nil => exact absurd rfl nonempty
  | append_singleton digits c ih =>
      have digit : c.isDigit = true := allDigits c (by simp)
      by_cases first : digits = []
      · subst digits
        simpa [Nat.ofDigitChars_cons] using Digits.single digit
      · have front := ih first fun d member => allDigits d (by simp [member])
        rw [Nat.ofDigitChars_append, Nat.ofDigitChars_cons, Nat.ofDigitChars_nil]
        exact Digits.snoc front digit

theorem isDigits_iff (text : List Char) :
    isDigits text = true ↔ text ≠ [] ∧ ∀ c ∈ text, c.isDigit = true := by
  simp [isDigits]

theorem natural?_eq_some_iff {text : List Char} {number : Nat} :
    natural? text = some number ↔ Digits text number := by
  unfold natural?
  constructor
  · intro read
    split at read
    · rename_i digits
      obtain ⟨nonempty, allDigits⟩ := (isDigits_iff text).mp digits
      rw [← Option.some.inj read]
      exact digits_ofDigitChars text nonempty allDigits
    · simp at read
  · intro denotes
    rw [if_pos ((isDigits_iff text).mpr ⟨denotes.ne_nil, denotes.isDigit⟩), denotes.ofDigitChars]

theorem Digits.not_cons_plus {rest : List Char} {number : Nat} :
    ¬ Digits ('+' :: rest) number := by
  intro denotes
  have digit := denotes.isDigit '+' (by simp)
  simp at digit

theorem natural?_dropPlus_iff {text : List Char} {number : Nat} :
    natural? (dropPlus text) = some number ↔
      Digits text number ∨ ∃ digits, text = '+' :: digits ∧ Digits digits number := by
  rw [natural?_eq_some_iff]
  unfold dropPlus
  split
  · rename_i rest
    constructor
    · exact fun denotes => Or.inr ⟨rest, rfl, denotes⟩
    · rintro (plain | ⟨digits, same, denotes⟩)
      · exact absurd plain Digits.not_cons_plus
      · rw [(List.cons.inj same).2]
        exact denotes
  · rename_i notPlus
    constructor
    · exact Or.inl
    · rintro (plain | ⟨digits, same, _⟩)
      · exact plain
      · exact absurd same (notPlus digits)

theorem unsigned?_eq_some_iff {bound : Nat} {text : List Char} {number : Nat} :
    unsigned? bound text = some number ↔ Numeral bound text number := by
  simp only [unsigned?, Option.filter_eq_some_iff, decide_eq_true_eq, natural?_dropPlus_iff,
    Numeral, and_comm]

theorem numeral_decimal {bound number : Nat} (below : number < bound) :
    Numeral bound (decimal number) number :=
  unsigned?_eq_some_iff.mp (unsigned?_decimal bound number below)

theorem Numeral.eq_of_decimal {bound number other : Nat}
    (numeral : Numeral bound (decimal number) other) : other = number := by
  have read := natural?_dropPlus_iff.mpr numeral.2
  have own := natural?_dropPlus_iff.mpr (numeral_decimal (Nat.lt_succ_self number)).2
  exact Option.some.inj (read.symm.trans own)

theorem Numeral.ne_nil {bound number : Nat} {text : List Char}
    (numeral : Numeral bound text number) : text ≠ [] := by
  rcases numeral.2 with plain | ⟨digits, rfl, -⟩
  · exact plain.ne_nil
  · exact List.cons_ne_nil _ _

theorem Numeral.space_not_mem {bound : Nat} {text : List Char} {number : Nat}
    (numeral : Numeral bound text number) : ' ' ∉ text := by
  intro member
  rcases numeral.2 with plain | ⟨digits, rfl, denotes⟩
  · have digit := plain.isDigit ' ' member
    simp at digit
  · have digit := denotes.isDigit ' ' (by simpa using member)
    simp at digit

end PhotoTags.Text
