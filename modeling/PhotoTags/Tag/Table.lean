/-!
The tags that images are read and written with: their names, numbers, groups and formats.
-/

namespace PhotoTags

namespace Tag

inductive Group
  | main
  | exif
  | gps
  deriving DecidableEq, Repr

inductive Format
  | text
  | short
  | long
  | rational
  deriving DecidableEq, Repr

end Tag

structure Tag where
  name : String
  id : Nat
  group : Tag.Group
  format : Tag.Format
  deriving DecidableEq, Repr

namespace Tag

def table : List Tag :=
  [⟨"ImageWidth", 0x0100, .main, .long⟩,
   ⟨"ImageLength", 0x0101, .main, .long⟩,
   ⟨"ImageDescription", 0x010E, .main, .text⟩,
   ⟨"Make", 0x010F, .main, .text⟩,
   ⟨"Model", 0x0110, .main, .text⟩,
   ⟨"Orientation", 0x0112, .main, .short⟩,
   ⟨"Software", 0x0131, .main, .text⟩,
   ⟨"DateTime", 0x0132, .main, .text⟩,
   ⟨"Artist", 0x013B, .main, .text⟩,
   ⟨"Copyright", 0x8298, .main, .text⟩,
   ⟨"ExposureTime", 0x829A, .exif, .rational⟩,
   ⟨"FNumber", 0x829D, .exif, .rational⟩,
   ⟨"ISOSpeedRatings", 0x8827, .exif, .short⟩,
   ⟨"DateTimeOriginal", 0x9003, .exif, .text⟩,
   ⟨"DateTimeDigitized", 0x9004, .exif, .text⟩,
   ⟨"Flash", 0x9209, .exif, .short⟩,
   ⟨"FocalLength", 0x920A, .exif, .rational⟩,
   ⟨"WhiteBalance", 0xA403, .exif, .short⟩,
   ⟨"GPSLatitudeRef", 0x0001, .gps, .text⟩,
   ⟨"GPSLatitude", 0x0002, .gps, .rational⟩,
   ⟨"GPSLongitudeRef", 0x0003, .gps, .text⟩,
   ⟨"GPSLongitude", 0x0004, .gps, .rational⟩]

def lookup? (name : String) : Option Tag :=
  table.find? (·.name == name)

example : (table.map (·.name)).Nodup := by decide

end Tag

end PhotoTags
