import PhotoTags.Text.Cut

/-!
Numerals: decimal texts of whole numbers, with and without a sign and within a bound, and the
decimal and hexadecimal digits of a number. `unsigned?_decimal` says that a number's digits are
read as that number.
-/

namespace PhotoTags.Text

/-- One or more digits from 0 to 9 and nothing else; other scripts have no digits here. -/
def isDigits (text : List Char) : Bool :=
  !text.isEmpty && text.all Char.isDigit

def natural? (text : List Char) : Option Nat :=
  if isDigits text then some (Nat.ofDigitChars 10 text 0) else none

def dropPlus : List Char → List Char
  | '+' :: rest => rest
  | text => text

/-- The numbers of 16, 32 and 64 bits are those below these bounds. -/
def bound16 : Nat := 65536

def bound32 : Nat := 4294967296

def bound64 : Nat := 18446744073709551616

/-- A number below `bound`, with at most one plus sign in front of its digits. -/
def unsigned? (bound : Nat) (text : List Char) : Option Nat :=
  (natural? (dropPlus text)).filter (· < bound)

/-- A number of 32 bits in two's complement, with at most one sign in front of its digits. -/
def signed32? : List Char → Option Int
  | '-' :: rest => ((natural? rest).filter (· ≤ 2147483648)).map fun magnitude => -(magnitude : Int)
  | text => (unsigned? 2147483648 text).map Int.ofNat

def decimal (number : Nat) : List Char :=
  Nat.toDigits 10 number

def hexadecimal (number : Nat) : List Char :=
  Nat.toDigits 16 number

def signedDecimal (number : Int) : List Char :=
  if number < 0 then '-' :: decimal number.natAbs else decimal number.natAbs

theorem isDigits_decimal (number : Nat) : isDigits (decimal number) = true := by
  have digits : (decimal number).all Char.isDigit = true :=
    List.all_eq_true.mpr fun c member => Nat.isDigit_of_mem_toDigits (by omega) (by omega) member
  have nonempty : (decimal number).isEmpty = false := by
    simp [decimal, Nat.toDigits_ne_nil]
  simp [isDigits, digits, nonempty]

theorem natural?_decimal (number : Nat) : natural? (decimal number) = some number := by
  simp only [natural?, isDigits_decimal, if_true]
  simp [decimal, Nat.ofDigitChars_ten_toDigits]

theorem decimal_ne_cons_plus (number : Nat) (rest : List Char) : decimal number ≠ '+' :: rest := by
  intro starts
  have digit := Nat.isDigit_of_mem_toDigits (b := 10) (n := number) (c := '+') (by omega) (by omega)
    (by rw [show Nat.toDigits 10 number = '+' :: rest from starts]; simp)
  simp at digit

theorem unsigned?_decimal (bound number : Nat) (below : number < bound) :
    unsigned? bound (decimal number) = some number := by
  have kept : dropPlus (decimal number) = decimal number := by
    unfold dropPlus
    split
    · rename_i rest starts
      exact absurd starts (decimal_ne_cons_plus number rest)
    · rfl
  simp [unsigned?, kept, natural?_decimal, below]

theorem signedDecimal_natCast (number : Nat) : signedDecimal (number : Int) = decimal number := by
  rw [signedDecimal, if_neg (by omega), Int.natAbs_natCast]

def padStart (width : Nat) (filler : Char) (text : List Char) : List Char :=
  List.replicate (width - text.length) filler ++ text

def padEnd (width : Nat) (filler : Char) (text : List Char) : List Char :=
  text ++ List.replicate (width - text.length) filler

end PhotoTags.Text
