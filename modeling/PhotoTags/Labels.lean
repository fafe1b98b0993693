/-!
The codes of the orientation and white balance tags and their labels.
-/

namespace PhotoTags

inductive Orientation
  | undefined
  | normal
  | flipHorizontal
  | rotate180
  | flipVertical
  | transpose
  | rotate90
  | transverse
  | rotate270
  deriving DecidableEq, Repr

namespace Orientation

def ofCode (code : Int) : Orientation :=
  if code = 1 then normal
  else if code = 2 then flipHorizontal
  else if code = 3 then rotate180
  else if code = 4 then flipVertical
  else if code = 5 then transpose
  else if code = 6 then rotate90
  else if code = 7 then transverse
  else if code = 8 then rotate270
  else undefined

def label : Orientation → String
  | undefined => "Undefined"
  | normal => "Normal"
  | flipHorizontal => "Flipped horizontal"
  | rotate180 => "Rotated 180 degrees"
  | flipVertical => "Upside down mirror"
  | transpose => "Transposed"
  | rotate90 => "Rotated 90 degrees"
  | transverse => "Transversed"
  | rotate270 => "Rotated 270 degrees"

end Orientation

inductive WhiteBalance
  | auto
  | manual
  deriving DecidableEq, Repr

namespace WhiteBalance

/-- Codes other than 0 and 1 have no meaning. -/
def ofCode? (code : Int) : Option WhiteBalance :=
  if code = 0 then some auto else if code = 1 then some manual else none

def label : WhiteBalance → String
  | auto => "Auto"
  | manual => "Manual"

end WhiteBalance

end PhotoTags
