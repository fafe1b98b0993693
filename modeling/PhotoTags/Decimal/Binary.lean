/-!
Binary floating-point numbers as exact quantities: the fields of a format, the number that a bit
pattern stands for, and the pattern nearest to a ratio of whole numbers.
-/

namespace PhotoTags.Decimal

structure Format where
  fractionBits : Nat
  exponentBits : Nat
  deriving DecidableEq, Repr

def single : Format := ⟨23, 8⟩

def double : Format := ⟨52, 11⟩

/-- What a bit pattern stands for; a finite number is `significand * 2 ^ exponent`. -/
inductive Binary
  | finite (negative : Bool) (significand : Nat) (exponent : Int)
  | infinite (negative : Bool)
  | nan
  deriving DecidableEq, Repr

namespace Format

def lowest (format : Format) : Int :=
  2 - (Nat.pow 2 (format.exponentBits - 1) : Int) - format.fractionBits

def infinityBits (format : Format) : Nat :=
  (Nat.pow 2 format.exponentBits - 1) * Nat.pow 2 format.fractionBits

def decode (format : Format) (bits : Nat) : Binary :=
  let fraction := bits % Nat.pow 2 format.fractionBits
  let exponent := bits / Nat.pow 2 format.fractionBits % Nat.pow 2 format.exponentBits
  let negative := bits / Nat.pow 2 (format.fractionBits + format.exponentBits) % 2 == 1
  if exponent = Nat.pow 2 format.exponentBits - 1 then
    if fraction = 0 then .infinite negative else .nan
  else if exponent = 0 then .finite negative fraction format.lowest
  else .finite negative (Nat.pow 2 format.fractionBits + fraction) (format.lowest + exponent - 1)

end Format

/-- The quotient rounded to the nearest whole number, a half going to the even one. -/
def roundHalfEven (numerator denominator : Nat) : Nat :=
  let quotient := numerator / denominator
  let twice := 2 * (numerator % denominator)
  if twice < denominator then quotient
  else if denominator < twice then quotient + 1
  else if quotient % 2 = 0 then quotient
  else quotient + 1

def timesPower (base : Nat) (exponent : Int) (ratio : Nat × Nat) : Nat × Nat :=
  if 0 ≤ exponent then (ratio.1 * Nat.pow base exponent.toNat, ratio.2)
  else (ratio.1, ratio.2 * Nat.pow base (-exponent).toNat)

/-- The greatest `k` with `2 ^ k ≤ numerator / denominator`, both being positive. -/
def floorLog2 (numerator denominator : Nat) : Int :=
  let guess : Int := (numerator.log2 : Int) - denominator.log2
  let power := timesPower 2 guess (1, 1)
  if numerator * power.2 < denominator * power.1 then guess - 1 else guess

/-- The pattern of the number nearest to a ratio. Patterns of positive numbers are in the order of
the numbers, so that a significand rounded up to the next power of two needs no special care. -/
def Format.nearest (format : Format) (numerator denominator : Nat) : Nat :=
  if numerator = 0 then 0
  else
    let exponent := max (floorLog2 numerator denominator - format.fractionBits) format.lowest
    let scaled := timesPower 2 (-exponent) (numerator, denominator)
    let significand := roundHalfEven scaled.1 scaled.2
    min ((exponent - format.lowest).toNat * Nat.pow 2 format.fractionBits + significand)
      format.infinityBits

example : double.nearest 1 10 = (0.1 : Float).toBits.toNat := by decide +kernel

end PhotoTags.Decimal
