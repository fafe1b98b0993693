import PhotoTags.Exchange.Encode
import PhotoTags.Failure
import PhotoTags.Jpeg.Exif
import PhotoTags.Tag.Value
import PhotoTags.Tiff.Layout

/-!
New attributes in an image. Those that the table has and whose values fit become fields; they take
the place of fields with the same tag, and every other field stays.
-/

namespace PhotoTags.Image

structure Selection where
  written : List String
  skipped : List String
  fields : List Tiff.Field
  deriving DecidableEq, Repr

def directoryOf : Tag.Group → Tiff.Directory
  | .main => .main
  | .exif => .exif
  | .gps => .gps

def field? (entry : Entry) : Option Tiff.Field :=
  match Tag.lookup? entry.1 with
  | none => none
  | some tag =>
      (tag.format.value? entry.2).map fun value => ⟨directoryOf tag.group, tag.id, 0, value⟩

def sameTag (left right : Tiff.Field) : Bool :=
  left.directory = right.directory && left.id = right.id

namespace Selection

def empty : Selection := ⟨[], [], []⟩

/-- Adds an attribute; of two with one tag the later one counts. -/
def add (selection : Selection) (entry : Entry) : Selection :=
  match field? entry with
  | some field =>
      { selection with
        written := selection.written ++ [entry.1]
        fields := selection.fields.filter (!sameTag · field) ++ [field] }
  | none => { selection with skipped := selection.skipped ++ [entry.1] }

def ofEntries (entries : List Entry) : Selection :=
  entries.foldl add empty

end Selection

def merged (old new : List Tiff.Field) : List Tiff.Field :=
  old.filter (fun field => !(field.chain = 0 && new.any (sameTag field))) ++ new

inductive Plan
  | unchanged
  | segments (segments : List Jpeg.Segment)
  deriving DecidableEq, Repr

inductive PlanError
  | unreadable (cause : Jpeg.ReadError)
  | unencodable
  deriving DecidableEq, Repr

/-- The segments of an image with new fields. An image that would have no field about itself stays
as it is. -/
def plan (bytes : Bytes) (fields : List Tiff.Field) : Except (Failure PlanError) Plan :=
  match Jpeg.read bytes with
  | .error cause => .error (.error (.unreadable cause))
  | .ok segments =>
      let content := match Jpeg.exifBlock? segments with
        | some block => Tiff.Content.ofBlock block
        | none => .empty
      let fields := merged content.fields fields
      if fields.any (·.chain = 0) then
        match Tiff.blockBytes? content.order fields content.thumbnail with
        | none => .error (.error .unencodable)
        | some block =>
            match Jpeg.withExif? segments block with
            | none => .error .abort
            | some segments => .ok (.segments segments)
      else .ok .unchanged

end PhotoTags.Image
