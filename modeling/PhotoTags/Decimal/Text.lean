import PhotoTags.Decimal.Shortest

/-!
Numbers as decimal texts: the exact value with a fixed number of places, and the shortest decimal
with or without an exponent.
-/

namespace PhotoTags.Decimal

def signText (negative : Bool) : List Char :=
  if negative then ['-'] else []

def fixedRatio (places numerator denominator : Nat) : List Char :=
  let digits := Text.padStart (places + 1) '0'
    (Text.decimal (roundHalfEven (numerator * Nat.pow 10 places) denominator))
  let whole := digits.take (digits.length - places)
  if places = 0 then whole else whole ++ '.' :: digits.drop (digits.length - places)

def fixedText (places : Nat) : Binary → List Char
  | .nan => ['N', 'a', 'N']
  | .infinite negative => signText negative ++ ['i', 'n', 'f']
  | .finite negative significand exponent =>
      let ratio := timesPower 2 exponent (significand, 1)
      signText negative ++ fixedRatio places ratio.1 ratio.2

/-- The digits with a point `places` digits before their end, or as many zeros as it takes. -/
def positional (digits : List Char) (power : Int) : List Char :=
  if 0 ≤ power then digits ++ List.replicate power.toNat '0'
  else
    let places := (-power).toNat
    let padded := Text.padStart (places + 1) '0' digits
    padded.take (padded.length - places) ++ '.' :: padded.drop (padded.length - places)

def plainText (format : Format) : Binary → List Char
  | .nan => ['N', 'a', 'N']
  | .infinite negative => signText negative ++ ['i', 'n', 'f']
  | .finite negative 0 _ => signText negative ++ ['0']
  | .finite negative significand exponent =>
      let decimal := shortest format .up significand exponent
      signText negative ++ positional (Text.decimal decimal.1) decimal.2

/-- How a JSON text writes the shortest decimal of a finite number: with a point from `1e-5` up to
`1e16`, else with an exponent; a number with a point has a digit behind it. -/
def jsonNumber (digits : List Char) (power : Int) : List Char :=
  let size := digits.length + power
  if 0 ≤ power ∧ size ≤ 16 then positional digits power ++ ['.', '0']
  else if -5 < size ∧ size ≤ 16 then positional digits power
  else
    let fraction := match digits.drop 1 with
      | [] => []
      | rest => '.' :: rest
    digits.take 1 ++ fraction ++ 'e' :: Text.signedDecimal (size - 1)

def jsonText : Binary → List Char
  | .nan => ['n', 'u', 'l', 'l']
  | .infinite _ => ['n', 'u', 'l', 'l']
  | .finite negative 0 _ => signText negative ++ ['0', '.', '0']
  | .finite negative significand exponent =>
      let decimal := shortest double .even significand exponent
      signText negative ++ jsonNumber (Text.decimal decimal.1) decimal.2

def ofFloat (number : Float) : Binary :=
  double.decode number.toBits.toNat

end PhotoTags.Decimal
