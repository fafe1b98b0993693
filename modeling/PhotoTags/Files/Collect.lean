import PhotoTags.Files.Tree

/-!
The images that paths name: files with the extension of a JPEG image, and all such files below a
directory.
-/

namespace PhotoTags

/-- The extension is `jpg` or `jpeg` in any case of its letters. -/
def Path.isImage (path : Path) : Bool :=
  match path.extension? with
  | some extension =>
      Text.asciiLower extension == "jpg".toList || Text.asciiLower extension == "jpeg".toList
  | none => false

namespace FileTree

def below? : Location → Location → Option Location
  | [], rest => some rest
  | _ :: _, [] => none
  | name :: base, other :: location => if name = other then below? base location else none

def filesBelow (tree : FileTree) (path : Path) (base : Location) : List Path :=
  tree.nodes.filterMap fun node =>
    match node.2, below? base node.1 with
    | .file _, some rest => some (path.join rest)
    | _, _ => none

/-- The images at a path. What stands below a directory is there only if the path that names it leads
to it, so that it must not become too long. -/
def imagesAt (tree : FileTree) (path : Path) : List Path :=
  match tree.locate path with
  | .error _ => []
  | .ok location =>
      match tree.node? location with
      | some (.file _) => if path.isImage then [path] else []
      | some .directory =>
          (tree.filesBelow path location).filter fun file => tree.isFile file && file.isImage
      | none => []

/-- The images that the paths name, in the order of the paths; one may be named more than once. -/
def images (tree : FileTree) (paths : List Path) : List Path :=
  paths.flatMap tree.imagesAt

end FileTree

end PhotoTags
