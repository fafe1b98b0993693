import PhotoTags.Jpeg.Exif

/-!
The strict scan for the Exif block, by which values are looked up. The segments have to follow one
another without a gap; the first application segment 1 has to be an Exif segment and has to come
before the image data.
-/

namespace PhotoTags.Jpeg

/-- Shorter files are not scanned. -/
def scanMinimum : Nat := 129

/-- The block of the first application segment 1 among segments without gaps. Each takes two bytes
at least, so that the fuel of one unit for each byte lasts. -/
def scanFrom : Nat → Bytes → Option Bytes
  | fuel + 1, 0xFF :: marker :: rest =>
      if marker = 0xD8 then scanFrom fuel rest
      else
        match contentsAt? rest with
        | none => none
        | some (contents, rest) =>
            if marker = application1 then
              if hasExifMark contents ∧ contents ≠ exifMark then
                some (contents.drop exifMark.length)
              else none
            else if marker = startOfScan then none
            else scanFrom fuel rest
  | _, _ => none

def scan? (bytes : Bytes) : Option Bytes :=
  if bytes.length < scanMinimum then none
  else if bytes.take 2 = startBytes then scanFrom bytes.length (bytes.drop 2)
  else none

end PhotoTags.Jpeg
