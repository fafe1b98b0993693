import PhotoTags.Decimal.Binary
import PhotoTags.Text.Numeral

/-!
The shortest decimal that reads back as a given binary number, and the nearest of those. Of two
equally near ones a parameter decides.
-/

namespace PhotoTags.Decimal

inductive Tie
  | even
  | up
  deriving DecidableEq, Repr

/-- The numbers that round to a given one: a quarter of the distance between neighbours is the
unit, and the ends belong to the range if the significand is even. -/
structure Interval where
  low : Nat
  value : Nat
  high : Nat
  closed : Bool
  exponent : Int
  deriving DecidableEq, Repr

def interval (format : Format) (significand : Nat) (exponent : Int) : Interval :=
  let narrow := significand = Nat.pow 2 format.fractionBits ∧ format.lowest < exponent
  ⟨4 * significand - (if narrow then 1 else 2), 4 * significand, 4 * significand + 2,
    significand % 2 == 0, exponent - 2⟩

/-- The greatest `k` with `10 ^ k ≤ numerator / denominator`, both being positive. -/
def floorLog10 (numerator denominator : Nat) : Int :=
  if denominator ≤ numerator then ((Nat.toDigits 10 (numerator / denominator)).length : Int) - 1
  else
    let places := (Nat.toDigits 10 (denominator / numerator)).length
    if denominator ≤ numerator * Nat.pow 10 (places - 1) then 1 - (places : Int) else -(places : Int)

namespace Interval

def holds (range : Interval) (multiple : Nat) (power : Int) : Bool :=
  let decimal := timesPower 10 power (multiple, 1)
  let unit := timesPower 2 range.exponent (1, 1)
  let left := decimal.1 * unit.2
  let low := range.low * unit.1 * decimal.2
  let high := range.high * unit.1 * decimal.2
  if range.closed then low ≤ left && left ≤ high else low < left && left < high

/-- The multiples of a power of ten next to the value that lie in the interval, at most one of
them if `tie` can choose. -/
def candidate? (range : Interval) (tie : Tie) (power : Int) : Option Nat :=
  let scaled := timesPower 10 (-power) (timesPower 2 range.exponent (range.value, 1))
  let below := scaled.1 / scaled.2
  let twice := 2 * (scaled.1 % scaled.2)
  match range.holds below power, range.holds (below + 1) power with
  | true, true =>
      if twice < scaled.2 then some below
      else if scaled.2 < twice then some (below + 1)
      else if tie = .even ∧ below % 2 = 0 then some below
      else some (below + 1)
  | true, false => some below
  | false, true => some (below + 1)
  | false, false => none

/-- The first power of ten, going down, that has a multiple in the interval. -/
def search (range : Interval) (tie : Tie) : Nat → Int → Nat × Int
  | 0, power => (range.value, power)
  | fuel + 1, power =>
      match range.candidate? tie power with
      | some multiple => (multiple, power)
      | none => search range tie fuel (power - 1)

end Interval

def dropZeros : Nat → Nat × Int → Nat × Int
  | 0, decimal => decimal
  | fuel + 1, (multiple, power) =>
      if multiple % 10 = 0 then dropZeros fuel (multiple / 10, power + 1) else (multiple, power)

/-- The shortest decimal, as a whole number and a power of ten, for a positive number. -/
def shortest (format : Format) (tie : Tie) (significand : Nat) (exponent : Int) : Nat × Int :=
  let ratio := timesPower 2 exponent (significand, 1)
  let range := interval format significand exponent
  dropZeros 400 (range.search tie 20 (floorLog10 ratio.1 ratio.2))

example : shortest double .even 0x1999999999999A (-56) = (1, -1) := by decide +kernel

end PhotoTags.Decimal
