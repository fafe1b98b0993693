import PhotoTags.Decimal.Binary
import PhotoTags.Text.Numeral

/-!
Decimal texts read as the nearest double: an optional sign, then a word for infinity or for not a
number, or digits with an optional point and an optional exponent.
-/

namespace PhotoTags.Decimal

/-- A decimal number: `digits * 10 ^ exponent`. -/
structure Scientific where
  digits : Nat
  exponent : Int
  deriving DecidableEq, Repr

def signed : List Char → Bool × List Char
  | '+' :: rest => (false, rest)
  | '-' :: rest => (true, rest)
  | text => (false, text)

def exponent? (text : List Char) : Option Int :=
  match text with
  | [] => some 0
  | mark :: rest =>
      if mark = 'e' ∨ mark = 'E' then
        let (negative, digits) := signed rest
        (Text.natural? digits).map fun (magnitude : Nat) =>
          if negative then -(magnitude : Int) else (magnitude : Int)
      else none

def scientific? (text : List Char) : Option Scientific :=
  let whole := text.takeWhile Char.isDigit
  let rest := text.dropWhile Char.isDigit
  let (fraction, rest) := match rest with
    | '.' :: rest => (rest.takeWhile Char.isDigit, rest.dropWhile Char.isDigit)
    | rest => ([], rest)
  match Text.natural? (whole ++ fraction), exponent? rest with
  | some digits, some exponent => some ⟨digits, exponent - fraction.length⟩
  | _, _ => none

/-- Powers of ten from here on are larger than any double. -/
def tooLarge : Int := 400

/-- Numbers below this power of ten are nearest to zero. -/
def tooSmall : Int := -400

def Scientific.bits (number : Scientific) : Nat :=
  if number.digits = 0 then 0
  else
    let magnitude := (number.digits.log2 : Int) / 4 + number.exponent
    if tooLarge < magnitude then double.infinityBits
    else if (number.digits.log2 : Int) + number.exponent < tooSmall then 0
    else
      let ratio := timesPower 10 number.exponent (number.digits, 1)
      double.nearest ratio.1 ratio.2

def isInfinityWord (text : List Char) : Bool :=
  Text.asciiLower text == ['i', 'n', 'f'] ||
    Text.asciiLower text == ['i', 'n', 'f', 'i', 'n', 'i', 't', 'y']

def isNanWord (text : List Char) : Bool :=
  Text.asciiLower text == ['n', 'a', 'n']

def magnitudeBits? (text : List Char) : Option Nat :=
  if isInfinityWord text then some double.infinityBits
  else if isNanWord text then some (double.infinityBits + Nat.pow 2 51)
  else (scientific? text).map Scientific.bits

def float? (text : List Char) : Option Float :=
  let (negative, rest) := signed text
  (magnitudeBits? rest).map fun bits =>
    Float.ofBits (UInt64.ofNat (if negative then bits + Nat.pow 2 63 else bits))

end PhotoTags.Decimal
