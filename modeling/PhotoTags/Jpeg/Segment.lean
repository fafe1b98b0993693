import PhotoTags.Text.Utf8
import PhotoTags.Tiff.Word

/-!
JPEG images as lists of segments, read from bytes and written back. Bytes between two segments are
dropped, and so is everything behind the end marker, which is not written either.
-/

namespace PhotoTags.Jpeg

/-- A marker with its contents. Behind the contents of a start of scan come the image data, which
reach to the end of the file. -/
structure Segment where
  marker : UInt8
  contents : Bytes
  scan : Bytes
  deriving DecidableEq, Repr

inductive ReadError
  | signature
  | truncated
  deriving DecidableEq, Repr

def endOfImage : UInt8 := 0xD9

def startOfScan : UInt8 := 0xDA

def startBytes : Bytes := [0xFF, 0xD8]

def hasLength (marker : UInt8) : Bool :=
  (0xC0 ≤ marker && marker ≤ 0xD7) || marker == 0xDA || marker == 0xDB || marker == 0xDD ||
    (0xE0 ≤ marker && marker ≤ 0xEF) || marker == 0xFE

/-- The contents behind a length of two bytes that counts itself, and the bytes behind them. -/
def contentsAt? : Bytes → Option (Bytes × Bytes)
  | high :: low :: rest =>
      let length := high.toNat * 256 + low.toNat
      if 2 ≤ length ∧ (rest.take (length - 2)).length = length - 2 then
        some (rest.take (length - 2), rest.drop (length - 2))
      else none
  | _ => none

/-- The next marker and the bytes behind it; several bytes FF may stand before it. -/
def markerAt? (bytes : Bytes) : Option (UInt8 × Bytes) :=
  match (bytes.dropWhile (· != 0xFF)).dropWhile (· == 0xFF) with
  | [] => none
  | marker :: rest => some (marker, rest)

/-- The segments up to the end of the image. Each takes at least a byte, so that the fuel of one
unit for each byte lasts. -/
def segmentsOf : Nat → Bytes → Except ReadError (List Segment)
  | 0, _ => .error .truncated
  | fuel + 1, bytes =>
      match markerAt? bytes with
      | none => .error .truncated
      | some (marker, rest) =>
          if marker = endOfImage then .ok []
          else if hasLength marker then
            match contentsAt? rest with
            | none => .error .truncated
            | some (contents, rest) =>
                if marker = startOfScan ∧ rest ≠ [] then .ok [⟨marker, contents, rest⟩]
                else (segmentsOf fuel rest).map (⟨marker, contents, []⟩ :: ·)
          else (segmentsOf fuel rest).map (⟨marker, [], []⟩ :: ·)

def read (bytes : Bytes) : Except ReadError (List Segment) :=
  match bytes with
  | first :: second :: rest =>
      if [first, second] = startBytes then segmentsOf (rest.length + 1) rest
      else .error .signature
  | _ => .error .truncated

def maxContents : Nat := 65533

/-- A marker without a length gets one all the same, which counts the contents only. Image data
behind empty contents are left out. -/
def Segment.bytes (segment : Segment) : Bytes :=
  let length := segment.contents.length + if hasLength segment.marker then 2 else 0
  [0xFF, segment.marker] ++ Tiff.ByteOrder.big.encode 2 length ++ segment.contents ++
    if segment.contents.isEmpty then [] else segment.scan

def write? (segments : List Segment) : Option Bytes :=
  if segments.all fun segment => segment.contents.length ≤ maxContents then
    some (startBytes ++ segments.flatMap Segment.bytes)
  else none

end PhotoTags.Jpeg
