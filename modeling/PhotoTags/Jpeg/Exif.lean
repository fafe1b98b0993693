import PhotoTags.Jpeg.Segment

/-!
The Exif segment of an image: finding it and putting a new block in its place. An image without one
gets it as its second segment.
-/

namespace PhotoTags.Jpeg

def application1 : UInt8 := 0xE1

def exifMark : Bytes := [0x45, 0x78, 0x69, 0x66, 0, 0]

def hasExifMark (contents : Bytes) : Bool :=
  contents.take exifMark.length == exifMark

namespace Segment

def isExif (segment : Segment) : Bool :=
  segment.marker == application1 && hasExifMark segment.contents

def ofBlock (block : Bytes) : Segment :=
  ⟨application1, exifMark ++ block, []⟩

end Segment

def exifBlock? (segments : List Segment) : Option Bytes :=
  (segments.find? Segment.isExif).map fun segment => segment.contents.drop exifMark.length

def exifIndex? (segments : List Segment) : Option Nat :=
  segments.findIdx? Segment.isExif

def insertAt {α : Type} (index : Nat) (item : α) (items : List α) : List α :=
  items.take index ++ item :: items.drop index

/-- The place that a new Exif segment takes at most. -/
def latestPlace : Nat := 3

/-- The segments with one Exif segment in place of all that were there: where the first one was,
or second if there was none, but not behind the third of the others. There have to be three
others. -/
def withExif? (segments : List Segment) (block : Bytes) : Option (List Segment) :=
  let others := segments.filter fun segment => !segment.isExif
  if others.length < latestPlace then none
  else
    let place := min ((exifIndex? segments).getD 1) latestPlace
    some (insertAt place (Segment.ofBlock block) others)

end PhotoTags.Jpeg
