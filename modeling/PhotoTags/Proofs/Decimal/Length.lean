import Mathlib.Algebra.Group.Nat.Defs
import PhotoTags.Decimal.Text

/-!
How long decimal texts get. A number has no more digits than it has bits, so that a bound on the
bits of what is shown bounds the text; the bounds are far from sharp.
-/

namespace PhotoTags

namespace Text

theorem length_toDigits_le {base number bits : Nat} (large : 2 ≤ base) (small : number < 2 ^ bits) :
    (Nat.toDigits base number).length ≤ bits + 1 := by
  refine (Nat.length_toDigits_le_iff large (Nat.succ_pos bits)).mpr ?_
  calc number < 2 ^ bits := small
    _ ≤ base ^ bits := Nat.pow_le_pow_left large bits
    _ ≤ base ^ (bits + 1) := Nat.pow_le_pow_right (Nat.lt_of_lt_of_le Nat.two_pos large)
      (Nat.le_succ bits)

theorem length_decimal_le {number bits : Nat} (small : number < 2 ^ bits) :
    (decimal number).length ≤ bits + 1 :=
  length_toDigits_le (by decide) small

theorem length_signedDecimal_le {number : Int} {bits : Nat} (small : number.natAbs < 2 ^ bits) :
    (signedDecimal number).length ≤ bits + 2 := by
  have digits := length_decimal_le small
  unfold signedDecimal
  split
  · rw [List.length_cons]
    omega
  · omega

theorem length_padStart (width : Nat) (filler : Char) (text : List Char) :
    (padStart width filler text).length = max width text.length := by
  rw [padStart, List.length_append, List.length_replicate]
  omega

end Text

namespace Decimal

theorem roundHalfEven_le (numerator denominator : Nat) :
    roundHalfEven numerator denominator ≤ numerator + 1 := by
  have quotient := Nat.div_le_self numerator denominator
  unfold roundHalfEven
  dsimp only
  split
  · omega
  · split
    · omega
    · split <;> omega

section

variable {base width bits : Nat} (small : base ≤ 2 ^ width) (exponent : Int) {ratio : Nat × Nat}

include small

theorem mul_pow_lt {number : Nat} (below : number < 2 ^ bits) (power : Nat) :
    number * Nat.pow base power < 2 ^ (bits + width * power) := by
  have scale : base ^ power ≤ 2 ^ (width * power) := by
    rw [Nat.pow_mul]
    exact Nat.pow_le_pow_left small power
  rw [Nat.pow_add]
  exact Nat.mul_lt_mul_of_lt_of_le below scale (Nat.two_pow_pos _)

omit small in
theorem lt_two_pow_add {number : Nat} (below : number < 2 ^ bits) (more : Nat) :
    number < 2 ^ (bits + more) :=
  Nat.lt_of_lt_of_le below (Nat.pow_le_pow_right Nat.two_pos (Nat.le_add_right _ _))

theorem fst_timesPower_lt (first : ratio.1 < 2 ^ bits) :
    (timesPower base exponent ratio).1 < 2 ^ (bits + width * exponent.natAbs) := by
  unfold timesPower
  split
  · rw [show exponent.toNat = exponent.natAbs by omega]
    exact mul_pow_lt small first _
  · exact lt_two_pow_add first _

theorem snd_timesPower_lt (second : ratio.2 < 2 ^ bits) :
    (timesPower base exponent ratio).2 < 2 ^ (bits + width * exponent.natAbs) := by
  unfold timesPower
  split
  · exact lt_two_pow_add second _
  · rw [show (-exponent).toNat = exponent.natAbs by omega]
    exact mul_pow_lt small second _

end

theorem two_le : 2 ≤ 2 ^ 1 := Nat.le_refl 2

theorem ten_le : 10 ≤ 2 ^ 4 := by decide

def Binary.IsSmall : Binary → Prop
  | finite _ significand exponent => significand < 2 ^ 53 ∧ exponent.natAbs ≤ 2048
  | infinite _ | nan => True

theorem isSmall_decode {format : Format} (known : format = single ∨ format = double) (bits : Nat) :
    (format.decode bits).IsSmall := by
  have narrow : format.fractionBits ≤ 52 ∧ format.exponentBits ≤ 11 ∧
      format.lowest.natAbs ≤ 1074 ∧ format.lowest ≤ 0 := by
    rcases known with rfl | rfl <;> decide
  have fraction : Nat.pow 2 format.fractionBits ≤ 2 ^ 52 :=
    Nat.pow_le_pow_right Nat.two_pos narrow.1
  have exponent : Nat.pow 2 format.exponentBits ≤ 2 ^ 11 :=
    Nat.pow_le_pow_right Nat.two_pos narrow.2.1
  have fractionBelow : bits % Nat.pow 2 format.fractionBits < Nat.pow 2 format.fractionBits :=
    Nat.mod_lt bits (Nat.two_pow_pos format.fractionBits)
  have exponentBelow : bits / Nat.pow 2 format.fractionBits % Nat.pow 2 format.exponentBits <
      Nat.pow 2 format.exponentBits :=
    Nat.mod_lt _ (Nat.two_pow_pos format.exponentBits)
  unfold Format.decode
  dsimp only
  split
  · split <;> trivial
  · split
    · exact ⟨by omega, by omega⟩
    · exact ⟨by omega, by omega⟩

theorem length_signText_le (negative : Bool) : (signText negative).length ≤ 1 := by
  cases negative <;> decide

theorem length_fixedRatio_le {numerator bits : Nat} (small : numerator < 2 ^ bits)
    (denominator : Nat) : (fixedRatio 4 numerator denominator).length ≤ bits + 17 := by
  have scaled : numerator * Nat.pow 10 4 + 1 < 2 ^ (bits + 14) := by
    calc numerator * 10000 + 1 ≤ (numerator + 1) * 10000 := by omega
      _ ≤ 2 ^ bits * 10000 := Nat.mul_le_mul_right _ small
      _ < 2 ^ bits * 2 ^ 14 := Nat.mul_lt_mul_of_pos_left (by decide) (Nat.two_pow_pos bits)
      _ = 2 ^ (bits + 14) := (Nat.pow_add 2 bits 14).symm
  have rounded := roundHalfEven_le (numerator * Nat.pow 10 4) denominator
  have digits := Text.length_decimal_le (Nat.lt_of_le_of_lt rounded scaled)
  have padded := Text.length_padStart (4 + 1) '0'
    (Text.decimal (roundHalfEven (numerator * Nat.pow 10 4) denominator))
  unfold fixedRatio
  simp only [Nat.reduceEqDiff, if_false, List.length_append, List.length_cons, List.length_take,
    List.length_drop]
  omega

theorem length_fixedText_le {number : Binary} (small : number.IsSmall) :
    (fixedText 4 number).length ≤ 2119 := by
  cases number with
  | nan => decide
  | infinite negative => cases negative <;> decide
  | finite negative significand exponent =>
      obtain ⟨below, near⟩ := small
      have scaled : (timesPower 2 exponent (significand, 1)).1 < 2 ^ (53 + 1 * exponent.natAbs) :=
        fst_timesPower_lt two_le exponent below
      have sign := length_signText_le negative
      have digits := length_fixedRatio_le scaled (timesPower 2 exponent (significand, 1)).2
      rw [fixedText, List.length_append]
      omega

theorem natAbs_floorLog10_le {numerator denominator bits : Nat} (first : numerator < 2 ^ bits)
    (second : denominator < 2 ^ bits) : (floorLog10 numerator denominator).natAbs ≤ bits + 1 := by
  have places {dividend : Nat} (small : dividend < 2 ^ bits) (divisor : Nat) :
      (Nat.toDigits 10 (dividend / divisor)).length ≤ bits + 1 :=
    Text.length_toDigits_le (by decide) (Nat.lt_of_le_of_lt (Nat.div_le_self _ _) small)
  have above := places first denominator
  have below := places second numerator
  unfold floorLog10
  dsimp only
  split
  · omega
  · split <;> omega

namespace Interval

variable {range : Interval}

/-- A candidate is the multiple next below the value or the one next above it. -/
theorem eq_of_candidate? {tie : Tie} {power : Int} {multiple : Nat}
    (found : range.candidate? tie power = some multiple) :
    let scaled := timesPower 10 (-power) (timesPower 2 range.exponent (range.value, 1))
    multiple = scaled.1 / scaled.2 ∨ multiple = scaled.1 / scaled.2 + 1 := by
  unfold candidate? at found
  dsimp only at found ⊢
  split at found
  · split at found
    · exact .inl (Option.some.inj found).symm
    · split at found
      · exact .inr (Option.some.inj found).symm
      · split at found
        · exact .inl (Option.some.inj found).symm
        · exact .inr (Option.some.inj found).symm
  · exact .inl (Option.some.inj found).symm
  · exact .inr (Option.some.inj found).symm
  · simp at found

variable {bits : Nat} (small : range.value < 2 ^ bits)

include small

theorem candidate?_lt {tie : Tie} {power : Int} {multiple : Nat}
    (found : range.candidate? tie power = some multiple) :
    multiple < 2 ^ (bits + range.exponent.natAbs + 4 * power.natAbs + 1) := by
  have unscaled : (timesPower 2 range.exponent (range.value, 1)).1 <
      2 ^ (bits + 1 * range.exponent.natAbs) :=
    fst_timesPower_lt two_le range.exponent small
  have scaled := fst_timesPower_lt ten_le (-power) unscaled
  rw [Nat.one_mul, Int.natAbs_neg] at scaled
  have near := eq_of_candidate? found
  dsimp only at near
  generalize timesPower 10 (-power) (timesPower 2 range.exponent (range.value, 1)) = ratio
    at near scaled
  have below := Nat.lt_of_le_of_lt (Nat.div_le_self ratio.1 ratio.2) scaled
  rw [Nat.pow_succ]
  omega

theorem search_le (tie : Tie) (fuel : Nat) (power : Int) :
    (range.search tie fuel power).1 <
        2 ^ (bits + range.exponent.natAbs + 4 * (power.natAbs + fuel) + 1) ∧
      (range.search tie fuel power).2.natAbs ≤ power.natAbs + fuel := by
  induction fuel generalizing power with
  | zero =>
      rw [Nat.add_assoc, Nat.add_assoc]
      exact ⟨lt_two_pow_add small _, Nat.le_refl _⟩
  | succ fuel ih =>
      rw [search]
      split
      · rename_i multiple found
        have near : bits + range.exponent.natAbs + 4 * power.natAbs + 1 ≤
            bits + range.exponent.natAbs + 4 * (power.natAbs + (fuel + 1)) + 1 := by
          omega
        exact ⟨Nat.lt_of_lt_of_le (candidate?_lt small found)
          (Nat.pow_le_pow_right Nat.two_pos near), Nat.le_add_right _ _⟩
      · obtain ⟨multiple, reached⟩ := ih (power - 1)
        have near : bits + range.exponent.natAbs + 4 * ((power - 1).natAbs + fuel) + 1 ≤
            bits + range.exponent.natAbs + 4 * (power.natAbs + (fuel + 1)) + 1 := by
          omega
        exact ⟨Nat.lt_of_lt_of_le multiple (Nat.pow_le_pow_right Nat.two_pos near), by omega⟩

end Interval

theorem dropZeros_le (fuel : Nat) (decimal : Nat × Int) :
    (dropZeros fuel decimal).1 ≤ decimal.1 ∧
      (dropZeros fuel decimal).2.natAbs ≤ decimal.2.natAbs + fuel := by
  induction fuel generalizing decimal with
  | zero => exact ⟨Nat.le_refl _, Nat.le_refl _⟩
  | succ fuel ih =>
      obtain ⟨multiple, power⟩ := decimal
      rw [dropZeros]
      split
      · obtain ⟨less, near⟩ := ih (multiple / 10, power + 1)
        dsimp only at less near ⊢
        omega
      · exact ⟨Nat.le_refl _, Nat.le_add_right _ _⟩

theorem length_positional_le (digits : List Char) (power : Int) :
    (positional digits power).length ≤ digits.length + power.natAbs + 2 := by
  unfold positional
  split
  · rw [List.length_append, List.length_replicate]
    omega
  · have padded := Text.length_padStart ((-power).toNat + 1) '0' digits
    simp only [List.length_append, List.length_cons, List.length_take, List.length_drop]
    omega

theorem length_shortest_le (format : Format) (tie : Tie) {significand : Nat} {exponent : Int}
    (below : significand < 2 ^ 53) (near : exponent.natAbs ≤ 2048) :
    (Text.decimal (shortest format tie significand exponent).1).length +
      (shortest format tie significand exponent).2.natAbs ≤ 13117 := by
  have value : (interval format significand exponent).value < 2 ^ 55 := by
    show 4 * significand < 2 ^ 55
    omega
  have shifted : (interval format significand exponent).exponent = exponent - 2 := rfl
  have one : 1 < 2 ^ 53 := by decide
  have first : (timesPower 2 exponent (significand, 1)).1 < 2 ^ (53 + 1 * exponent.natAbs) :=
    fst_timesPower_lt two_le exponent below
  have second : (timesPower 2 exponent (significand, 1)).2 < 2 ^ (53 + 1 * exponent.natAbs) :=
    snd_timesPower_lt two_le exponent one
  have start := natAbs_floorLog10_le first second
  unfold shortest
  dsimp only
  generalize floorLog10 (timesPower 2 exponent (significand, 1)).1
    (timesPower 2 exponent (significand, 1)).2 = power at start ⊢
  obtain ⟨found, reached⟩ := Interval.search_le value tie 20 power
  obtain ⟨less, dropped⟩ :=
    dropZeros_le 400 ((interval format significand exponent).search tie 20 power)
  have digits := Text.length_decimal_le (Nat.lt_of_le_of_lt less found)
  rw [shifted] at digits
  omega

theorem length_plainText_le (format : Format) {number : Binary} (small : number.IsSmall) :
    (plainText format number).length ≤ 13120 := by
  cases number with
  | nan => exact Nat.le_of_ble_eq_true rfl
  | infinite negative =>
      have sign := length_signText_le negative
      simp only [plainText, List.length_append, List.length_cons, List.length_nil]
      omega
  | finite negative significand exponent =>
      have sign := length_signText_le negative
      cases significand with
      | zero =>
          simp only [plainText, List.length_append, List.length_cons, List.length_nil]
          omega
      | succ less =>
          have together := length_shortest_le format .up small.1 small.2
          have positioned := length_positional_le
            (Text.decimal (shortest format .up (less + 1) exponent).1)
            (shortest format .up (less + 1) exponent).2
          rw [plainText, List.length_append]
          · omega
          · simp

end Decimal

end PhotoTags
