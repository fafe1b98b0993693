import PhotoTags.Codec.ImageFile
import PhotoTags.Edit

/-!
Reports on images: what attributes one has, which of them an update changed, and what went wrong.
-/

namespace PhotoTags

structure Report where
  path : Path
  attributes : Attributes
  typed : Typed
  updated : List String
  pending : Option String
  error : Option String

namespace Report

def failed (path : Path) (error : AccessError) : Report :=
  ⟨path, .empty, ⟨"", "", none, none⟩, [], none,
    some ("Failed to read attributes: " ++ error.message)⟩

/-- What a file says, its time being one of the zone. -/
def ofFile (zone : Zone) (file : ImageFile) : Report :=
  ⟨file.path, file.attributes, file.attributes.typedIn zone, [], none, none⟩

end Report

/-- The file with an edit made, and the names of the edits so far that changed a value. -/
def applyEdit (current : ImageFile × List String) (edit : Edit) : ImageFile × List String :=
  (current.1.set edit.1 edit.2,
    if current.1.get? edit.1 = some edit.2 then current.2 else current.2 ++ [edit.1])

def applyEdits (file : ImageFile) (edits : List Edit) : ImageFile × List String :=
  edits.foldl applyEdit (file, [])

section

variable {σ : Type} [Codec σ]

/-- The report on the image at a path; there is none if the codec aborts. -/
def inspect (zone : Zone) (path : Path) (codec : σ) : Option Report × σ :=
  match ImageFile.openAt path codec with
  | (.ok file, codec) => (some (.ofFile zone file), codec)
  | (.error (.error error), codec) => (some (.failed path error), codec)
  | (.error .abort, codec) => (none, codec)

def saveEdited (zone : Zone) (file : ImageFile) (updated : List String) (codec : σ) :
    Option Report × σ :=
  let report := { Report.ofFile zone file with updated }
  match file.save codec with
  | (.error .abort, codec) => (none, codec)
  | (.error (.error error), codec) =>
      (some { report with error := some ("Failed to save attributes: " ++ error.message) }, codec)
  | (.ok _, codec) =>
      match file.reload codec with
      | (.error .abort, codec) => (none, codec)
      | (.error (.error error), codec) =>
          (some { report with error := some ("Failed to re-read attributes: " ++ error.message) },
            codec)
      | (.ok file, codec) => (some { Report.ofFile zone file with updated }, codec)

/-- Makes edits to the image at a path. They are saved if any of them changes a value; a dry run
saves nothing and reports the text that would be staged. -/
def update (zone : Zone) (dryRun : Bool) (path : Path) (edits : List Edit) (codec : σ) :
    Option Report × σ :=
  match ImageFile.openAt path codec with
  | (.error .abort, codec) => (none, codec)
  | (.error (.error error), codec) => (some (.failed path error), codec)
  | (.ok file, codec) =>
      let (file, updated) := applyEdits file edits
      if dryRun then
        (some { Report.ofFile zone file with updated, pending := some file.attributes.save }, codec)
      else if updated.isEmpty then (some (.ofFile zone file), codec)
      else saveEdited zone file updated codec

end

end PhotoTags
