import PhotoTags.Text.Numeral

/-!
The tokens of a JSON text. A string may hold half of a surrogate pair, written with an escape; then
it is a string all the same, but no text.
-/

namespace PhotoTags.Json

inductive Token
  | openBracket
  | closeBracket
  | openBrace
  | closeBrace
  | comma
  | colon
  | word (value : Option Bool)
  | number (literal : List Char)
  | string (content : Option String)
  deriving DecidableEq, Repr

def isSpace (c : Char) : Bool :=
  c == ' ' || c == '\t' || c == '\n' || c == '\r'

def hexDigit? (c : Char) : Option Nat :=
  if c.isDigit then some (c.toNat - 48)
  else if 'a' ≤ c ∧ c ≤ 'f' then some (c.toNat - 87)
  else if 'A' ≤ c ∧ c ≤ 'F' then some (c.toNat - 55)
  else none

def hexNumber? (digits : List Char) : Option Nat :=
  digits.foldlM (fun value c => (hexDigit? c).map (value * 16 + ·)) 0

def escaped? (c : Char) : Option Char :=
  if c = '\x22' ∨ c = '\\' ∨ c = '/' then some c
  else if c = 'b' then some '\x08'
  else if c = 'f' then some '\x0c'
  else if c = 'n' then some '\n'
  else if c = 'r' then some '\r'
  else if c = 't' then some '\t'
  else none

/-- The units of a string up to its closing quote, backwards, and what follows the quote. A unit is
a code point or half of a surrogate pair. -/
def unitsAt : List Nat → List Char → Option (List Nat × List Char)
  | units, '\\' :: 'u' :: a :: b :: c :: d :: rest =>
      match hexNumber? [a, b, c, d] with
      | some unit => unitsAt (unit :: units) rest
      | none => none
  | units, '\\' :: c :: rest =>
      match escaped? c with
      | some character => unitsAt (character.toNat :: units) rest
      | none => none
  | units, c :: rest =>
      if c = '\x22' then some (units, rest)
      else if c = '\\' ∨ c.toNat < 0x20 then none
      else unitsAt (c.toNat :: units) rest
  | _, [] => none

def isHighHalf (unit : Nat) : Bool :=
  0xD800 ≤ unit && unit < 0xDC00

def isLowHalf (unit : Nat) : Bool :=
  0xDC00 ≤ unit && unit < 0xE000

/-- The text of units given backwards, which may have no half without its other half. -/
def textOf? : List Char → List Nat → Option (List Char)
  | text, [] => some text
  | text, low :: high :: rest =>
      if isLowHalf low then
        if isHighHalf high then
          textOf? (Char.ofNat (0x10000 + (high - 0xD800) * 0x400 + (low - 0xDC00)) :: text) rest
        else none
      else if isHighHalf low then none
      else textOf? (Char.ofNat low :: text) (high :: rest)
  | text, [unit] =>
      if isLowHalf unit || isHighHalf unit then none else some (Char.ofNat unit :: text)

def stringAt (text : List Char) : Option (Token × List Char) :=
  (unitsAt [] text).map fun (units, rest) =>
    (.string ((textOf? [] units).map String.ofList), rest)

def isNumberChar (c : Char) : Bool :=
  c.isDigit || c == '-' || c == '+' || c == '.' || c == 'e' || c == 'E'

def isExponent : List Char → Bool
  | [] => true
  | mark :: rest =>
      (mark == 'e' || mark == 'E') && match rest with
        | '+' :: digits => Text.isDigits digits
        | '-' :: digits => Text.isDigits digits
        | digits => Text.isDigits digits

def isFraction : List Char → Bool
  | '.' :: rest =>
      !(rest.takeWhile Char.isDigit).isEmpty && isExponent (rest.dropWhile Char.isDigit)
  | rest => isExponent rest

/-- The literal of a number: an optional minus sign, a zero or digits that start with another one,
then a fraction. -/
def isNumber (literal : List Char) : Bool :=
  let unsigned := match literal with
    | '-' :: rest => rest
    | rest => rest
  let whole := unsigned.takeWhile Char.isDigit
  !whole.isEmpty && (whole.head? != some '0' || whole.length == 1) &&
    isFraction (unsigned.dropWhile Char.isDigit)

def words : List (List Char × Option Bool) :=
  [("true".toList, some true), ("false".toList, some false), ("null".toList, none)]

def plainTokenAt (text : List Char) : Option (Token × List Char) :=
  match words.findSome? fun word => (Text.after? word.1 text).map (Token.word word.2, ·) with
  | some found => some found
  | none =>
      let literal := text.takeWhile isNumberChar
      if isNumber literal then some (.number literal, text.dropWhile isNumberChar) else none

def tokenAt : List Char → Option (Token × List Char)
  | [] => none
  | c :: rest =>
      if c = '[' then some (.openBracket, rest)
      else if c = ']' then some (.closeBracket, rest)
      else if c = '\x7b' then some (.openBrace, rest)
      else if c = '\x7d' then some (.closeBrace, rest)
      else if c = ',' then some (.comma, rest)
      else if c = ':' then some (.colon, rest)
      else if c = '\x22' then stringAt rest
      else plainTokenAt (c :: rest)

/-- All tokens of a text behind those already read, which are kept backwards. Each takes a
character at least, so that the fuel of one unit for each character lasts. -/
def tokensFrom : Nat → List Token → List Char → Option (List Token)
  | 0, _, _ => none
  | fuel + 1, read, text =>
      match text.dropWhile isSpace with
      | [] => some read.reverse
      | text =>
          match tokenAt text with
          | some (token, rest) => tokensFrom fuel (token :: read) rest
          | none => none

def tokens? (text : List Char) : Option (List Token) :=
  tokensFrom (text.length + 1) [] text

end PhotoTags.Json
