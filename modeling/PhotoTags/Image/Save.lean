import PhotoTags.Files.Tree
import PhotoTags.Image.Read
import PhotoTags.Image.Plan

/-!
Reading and changing the image at a path of a file tree. Before an image is changed its first
state can be copied; a later change keeps that copy.
-/

namespace PhotoTags.Image

inductive Problem
  | unreadableFile
  | unreadable (cause : Jpeg.ReadError)
  | unencodable
  | noBackup
  | unwritableFile
  deriving DecidableEq, Repr

def Problem.message : Problem → String
  | unreadableFile => "Failed to read image file"
  | unreadable .signature =>
      "Failed to parse JPEG: the file signature didn't match the expected signature"
  | unreadable .truncated => "Failed to parse JPEG: a truncated chunk was read"
  | unencodable => "Failed to encode EXIF block"
  | noBackup => "Failed to create backup"
  | unwritableFile => "Failed to write JPEG file"

def PlanError.problem : PlanError → Problem
  | .unreadable cause => .unreadable cause
  | .unencodable => .unencodable

structure Saved where
  written : List String
  skipped : List String
  backup : Option Path
  deriving DecidableEq, Repr

def readAt {α : Type} (read : Bytes → Except Jpeg.ReadError α) (tree : FileTree) (path : Path) :
    Except Problem α :=
  match tree.read path with
  | .error _ => .error .unreadableFile
  | .ok bytes =>
      match read bytes with
      | .error cause => .error (.unreadable cause)
      | .ok found => .ok found

def findingsAt (tree : FileTree) (path : Path) : Except Problem Findings :=
  readAt read tree path

def thumbnailAt (tree : FileTree) (path : Path) : Except Problem (Option Bytes) :=
  readAt thumbnail tree path

/-- Copies an image to its backup path, unless something is there. -/
def backUp (tree : FileTree) (path : Path) : Except Problem Unit × FileTree :=
  if tree.holds path.backup then (.ok (), tree)
  else
    match tree.copy path path.backup with
    | (.error _, tree) => (.error .noBackup, tree)
    | (.ok _, tree) => (.ok (), tree)

def backUpIf (wanted : Bool) (tree : FileTree) (path : Path) : Except Problem Unit × FileTree :=
  if wanted then backUp tree path else (.ok (), tree)

def writeSegments (tree : FileTree) (path : Path) (segments : List Jpeg.Segment) :
    Except (Failure Problem) FileTree :=
  match Jpeg.write? segments with
  | none => .error .abort
  | some bytes =>
      match tree.write path bytes with
      | .error _ => .error (.error .unwritableFile)
      | .ok tree => .ok tree

/-- Writes attributes into the image at a path, and gives the files as they are afterwards: a
backup may have been made, or a part of one, even if the image could not be written. -/
def save (backups : Bool) (path : Path) (entries : List Entry) (tree : FileTree) :
    Except (Failure Problem) Saved × FileTree :=
  let selection := Selection.ofEntries entries
  match tree.read path with
  | .error _ => (.error (.error .unreadableFile), tree)
  | .ok bytes =>
      match plan bytes selection.fields with
      | .error failure => (.error (failure.map PlanError.problem), tree)
      | .ok .unchanged => (.ok ⟨selection.written, selection.skipped, none⟩, tree)
      | .ok (.segments segments) =>
          match backUpIf backups tree path with
          | (.error problem, tree) => (.error (.error problem), tree)
          | (.ok _, tree) =>
              match writeSegments tree path segments with
              | .error failure => (.error failure, tree)
              | .ok tree =>
                  let backup := if backups then some path.backup else none
                  (.ok ⟨selection.written, selection.skipped, backup⟩, tree)

end PhotoTags.Image
