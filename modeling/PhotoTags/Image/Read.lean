import PhotoTags.Exchange.Encode
import PhotoTags.Jpeg.Scan
import PhotoTags.Tag.Plain
import PhotoTags.Tag.Table
import PhotoTags.Tiff.Location

/-!
The attributes of an image: for each tag of the table the plain text of its value, and the position.
An image whose Exif block cannot be found or read has none.
-/

namespace PhotoTags.Image

structure Findings where
  entries : List Entry
  hasThumbnail : Bool
  deriving DecidableEq, Repr

def Findings.empty : Findings := ⟨[], false⟩

/-- The blocks of an image with the walk over one of them: the block of its first Exif segment, in
which the thumbnail lies, and the block that the scan finds, in which values are looked up. -/
structure Survey where
  block : Bytes
  scanned : Bytes
  walk : Tiff.Survey
  deriving DecidableEq, Repr

def survey (bytes : Bytes) : Except Jpeg.ReadError (Option Survey) :=
  match Jpeg.read bytes with
  | .error cause => .error cause
  | .ok segments =>
      match Jpeg.exifBlock? segments, Jpeg.scan? bytes with
      | some block, some scanned =>
          .ok ((Tiff.survey? scanned).map fun walk => ⟨block, scanned, walk⟩)
      | _, _ => .ok none

/-- The attribute of a tag, which is looked up in the first directory and those hanging from it. -/
def tagEntries (walk : Tiff.Survey) (tag : Tag) : List Entry :=
  match (walk.find? 0 tag.id).bind fun value => Tag.plain? value.shown with
  | some text => [(tag.name, String.ofList text)]
  | none => []

def quotientText (quotient : Nat × Nat) : List Char :=
  Text.decimal quotient.1 ++ '/' :: Text.decimal quotient.2

def coordinateText (coordinate : Tiff.Coordinate) : List Char :=
  quotientText coordinate.degrees ++ ',' :: quotientText coordinate.minutes ++
    ',' :: quotientText coordinate.seconds

def referenceEntries (name : String) : Option Char → List Entry
  | some reference => [(name, String.ofList [reference])]
  | none => []

/-- The attributes of a position. A coordinate is always there, a reference need not be. -/
def locationEntries (location : Tiff.Location) : List Entry :=
  referenceEntries "GPSLatitudeRef" location.latitudeRef ++
    [("GPSLatitude", String.ofList (coordinateText location.latitude))] ++
    referenceEntries "GPSLongitudeRef" location.longitudeRef ++
    [("GPSLongitude", String.ofList (coordinateText location.longitude))]

namespace Survey

def thumbnail? (survey : Survey) : Option Bytes :=
  survey.walk.thumbnail? survey.block

def entries (survey : Survey) : List Entry :=
  (Tag.table.filter (·.group ≠ .gps)).flatMap (tagEntries survey.walk) ++
    match survey.walk.location? survey.scanned with
    | some location => locationEntries location
    | none => []

end Survey

/-- The attributes of an image, in the order of the table. -/
def read (bytes : Bytes) : Except Jpeg.ReadError Findings :=
  (survey bytes).map fun found =>
    match found with
    | some survey => ⟨survey.entries, survey.thumbnail?.isSome⟩
    | none => .empty

def thumbnail (bytes : Bytes) : Except Jpeg.ReadError (Option Bytes) :=
  (survey bytes).map fun found => found.bind Survey.thumbnail?

end PhotoTags.Image
