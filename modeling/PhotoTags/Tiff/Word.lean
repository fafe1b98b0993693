import PhotoTags.Text.Utf8

/-!
Whole numbers in a fixed number of bytes, in either byte order, and parts of a block of bytes.
-/

namespace PhotoTags.Tiff

inductive ByteOrder
  | big
  | little
  deriving DecidableEq, Repr

/-- The bytes of a number, the lowest first; what does not fit is lost. -/
def lowFirst : Nat → Nat → Bytes
  | 0, _ => []
  | width + 1, number => UInt8.ofNat number :: lowFirst width (number / 256)

def ofLowFirst : Bytes → Nat
  | [] => 0
  | byte :: rest => byte.toNat + 256 * ofLowFirst rest

namespace ByteOrder

def encode (order : ByteOrder) (width number : Nat) : Bytes :=
  match order with
  | little => lowFirst width number
  | big => (lowFirst width number).reverse

def decode (order : ByteOrder) (bytes : Bytes) : Nat :=
  match order with
  | little => ofLowFirst bytes
  | big => ofLowFirst bytes.reverse

end ByteOrder

def slice? (block : Bytes) (offset length : Nat) : Option Bytes :=
  let bytes := (block.drop offset).take length
  if bytes.length = length then some bytes else none

def number? (order : ByteOrder) (block : Bytes) (offset width : Nat) : Option Nat :=
  (slice? block offset width).map order.decode

def numbersOf (order : ByteOrder) (width : Nat) : Nat → Bytes → List Nat
  | 0, _ => []
  | count + 1, bytes =>
      order.decode (bytes.take width) :: numbersOf order width count (bytes.drop width)

theorem length_lowFirst (width number : Nat) : (lowFirst width number).length = width := by
  induction width generalizing number with
  | zero => rfl
  | succ width ih => simp [lowFirst, ih]

theorem ofLowFirst_lowFirst (width number : Nat) :
    ofLowFirst (lowFirst width number) = number % Nat.pow 256 width := by
  induction width generalizing number with
  | zero => simp [lowFirst, ofLowFirst, Nat.mod_one]
  | succ width ih =>
      have low : (UInt8.ofNat number).toNat = number % 256 := by simp
      simp only [lowFirst, ofLowFirst, ih, low]
      rw [show Nat.pow 256 (width + 1) = 256 * Nat.pow 256 width from Nat.mul_comm _ _, Nat.mod_mul]

theorem ByteOrder.length_encode (order : ByteOrder) (width number : Nat) :
    (order.encode width number).length = width := by
  cases order <;> simp [encode, length_lowFirst]

theorem ofLowFirst_lowFirst_of_lt {width number : Nat} (bound : number < Nat.pow 256 width) :
    ofLowFirst (lowFirst width number) = number := by
  rw [ofLowFirst_lowFirst]
  exact Nat.mod_eq_of_lt bound

theorem ByteOrder.decode_encode (order : ByteOrder) (width number : Nat)
    (bound : number < Nat.pow 256 width) : order.decode (order.encode width number) = number := by
  cases order with
  | big => simp only [encode, decode, List.reverse_reverse, ofLowFirst_lowFirst_of_lt bound]
  | little => simp only [encode, decode, ofLowFirst_lowFirst_of_lt bound]

end PhotoTags.Tiff
