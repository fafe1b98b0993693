import PhotoTags.Files.Path
import PhotoTags.Text.Utf8

/-!
The files and directories of a system, without links, and what reading and writing by path does.
Some places take no file, or none beyond a size, for as long as the tree is looked at.
-/

namespace PhotoTags

/-- The names on the way from the root. -/
abbrev Location := List String

inductive FileNode
  | file (content : Bytes)
  | directory
  deriving DecidableEq, Repr

inductive Barrier
  | sealed
  | room (bytes : Nat)
  deriving DecidableEq, Repr

/-- Locations with what stands there, in the order of the locations; the root itself is not listed.
Paths that are not absolute start at the working directory. -/
structure FileTree where
  nodes : List (Location × FileNode)
  working : Location := []
  barriers : List (Location × Barrier) := []
  deriving DecidableEq, Repr

inductive FileError
  | notFound
  | notDirectory
  | isDirectory
  | nameTooLong
  | badName
  | denied
  | noRoom
  deriving DecidableEq, Repr

def FileError.message : FileError → String
  | notFound => "No such file or directory (os error 2)"
  | notDirectory => "Not a directory (os error 20)"
  | isDirectory => "Is a directory (os error 21)"
  | nameTooLong => "File name too long (os error 36)"
  | badName => "file name contained an unexpected NUL byte"
  | denied => "Permission denied (os error 13)"
  | noRoom => "No space left on device (os error 28)"

namespace FileTree

def empty : FileTree := { nodes := [] }

def node? (tree : FileTree) (location : Location) : Option FileNode :=
  if location = [] then some .directory
  else (tree.nodes.find? (·.1 == location)).map (·.2)

def insertNode (location : Location) (node : FileNode) :
    List (Location × FileNode) → List (Location × FileNode)
  | [] => [(location, node)]
  | (other, kept) :: rest =>
      if location = other then (location, node) :: rest
      else if location < other then (location, node) :: (other, kept) :: rest
      else (other, kept) :: insertNode location node rest

def put (tree : FileTree) (location : Location) (node : FileNode) : FileTree :=
  { tree with nodes := insertNode location node tree.nodes }

def remove (tree : FileTree) (location : Location) : FileTree :=
  { tree with nodes := tree.nodes.filter (·.1 != location) }

def maxNameLength : Nat := 255

def maxPathLength : Nat := 4095

def isTooLong (name : String) : Bool :=
  maxNameLength < Text.byteLength name.toList

/-- Follows the parts of a path from a directory. Every part but the last has to be a directory;
what the last one names need not be there. Nothing is above the root. -/
def follow (tree : FileTree) : Location → List String → Except FileError Location
  | location, [] => .ok location
  | location, part :: rest =>
      if part = "" ∨ part = "." then follow tree location rest
      else if part = ".." then follow tree location.dropLast rest
      else
        let next := location ++ [part]
        if rest = [] then .ok next
        else if isTooLong part then .error .nameTooLong
        else
          match tree.node? next with
          | none => .error .notFound
          | some (.file _) => .error .notDirectory
          | some .directory => follow tree next rest

def start (tree : FileTree) (path : Path) : Location :=
  if path.isAbsolute then [] else tree.working

/-- The location that some parts of a path lead to. -/
def locateParts (tree : FileTree) (path : Path) (parts : List String) :
    Except FileError Location :=
  if path.text.toList.contains '\x00' then .error .badName
  else if maxPathLength < Text.byteLength path.text.toList then .error .nameTooLong
  else if path.text = "" then .error .notFound
  else tree.follow [] (tree.start path ++ parts)

def locate (tree : FileTree) (path : Path) : Except FileError Location :=
  match tree.locateParts path path.parts with
  | .error cause => .error cause
  | .ok location =>
      if location.any isTooLong then .error .nameTooLong else .ok location

def nodeAt? (tree : FileTree) (path : Path) : Option FileNode :=
  match tree.locate path with
  | .ok location => tree.node? location
  | .error _ => none

def isFile (tree : FileTree) (path : Path) : Bool :=
  match tree.nodeAt? path with
  | some (.file _) => true
  | _ => false

def isDirectory (tree : FileTree) (path : Path) : Bool :=
  tree.nodeAt? path == some .directory

def holds (tree : FileTree) (path : Path) : Bool :=
  (tree.nodeAt? path).isSome

def read (tree : FileTree) (path : Path) : Except FileError Bytes :=
  match tree.locate path with
  | .error cause => .error cause
  | .ok location =>
      match tree.node? location with
      | none => .error .notFound
      | some .directory => .error .isDirectory
      | some (.file content) => .ok content

def endsInSlash (path : Path) : Bool :=
  path.text.toList.getLast? == some '/'

/-- The location of a file to be written. A slash at the end would name a directory. -/
def target (tree : FileTree) (path : Path) : Except FileError Location :=
  if endsInSlash path then
    match tree.locateParts path (path.parts.reverse.dropWhile (· == "")).reverse with
    | .error cause => .error cause
    | .ok _ => .error .isDirectory
  else tree.locate path

def barrier? (tree : FileTree) (location : Location) : Option Barrier :=
  (tree.barriers.find? (·.1 == location)).map (·.2)

/-- The location of a file that can be opened to be written. It need not be there, but its directory
has to be. -/
def writable (tree : FileTree) (path : Path) : Except FileError Location :=
  match tree.target path with
  | .error cause => .error cause
  | .ok location =>
      if tree.node? location = some .directory then .error .isDirectory
      else if tree.barrier? location = some .sealed then .error .denied
      else .ok location

/-- As much of a content as there is room for at a location. -/
def fitting (tree : FileTree) (location : Location) (content : Bytes) : Bytes :=
  match tree.barrier? location with
  | some (.room bytes) => content.take bytes
  | _ => content

/-- Writes a file as a whole or not at all. -/
def write (tree : FileTree) (path : Path) (content : Bytes) : Except FileError FileTree :=
  match tree.writable path with
  | .error cause => .error cause
  | .ok location =>
      if tree.fitting location content = content then .ok (tree.put location (.file content))
      else .error .noRoom

/-- Copies a file, and gives the tree as it is then: if there is no room for all of the file, as much
of it as fits has been copied. -/
def copy (tree : FileTree) (source destination : Path) : Except FileError Unit × FileTree :=
  match tree.read source with
  | .error cause => (.error cause, tree)
  | .ok content =>
      match tree.writable destination with
      | .error cause => (.error cause, tree)
      | .ok location =>
          let copied := tree.fitting location content
          (if copied = content then .ok () else .error .noRoom, tree.put location (.file copied))

theorem find?_insertNode (location other : Location) (node : FileNode)
    (nodes : List (Location × FileNode)) :
    ((insertNode location node nodes).find? (·.1 == other)).map (·.2) =
      if location = other then some node else (nodes.find? (·.1 == other)).map (·.2) := by
  induction nodes with
  | nil => by_cases same : location = other <;> simp [insertNode, same]
  | cons item rest ih =>
      obtain ⟨kept, held⟩ := item
      by_cases found : location = kept
      · subst kept
        simp only [insertNode, if_true, List.find?_cons]
        by_cases same : location = other
        · simp [same]
        · simp [same, beq_eq_false_iff_ne.mpr same]
      · by_cases before : location < kept
        · simp only [insertNode, found, before, if_false, if_true, List.find?_cons]
          by_cases same : location = other
          · simp [same]
          · simp [same, beq_eq_false_iff_ne.mpr same]
        · simp only [insertNode, found, before, if_false, List.find?_cons]
          by_cases stored : kept = other
          · subst kept
            simp [found]
          · simp only [beq_eq_false_iff_ne.mpr stored, ih]

theorem node?_put (tree : FileTree) (location other : Location) (node : FileNode)
    (listed : other ≠ []) :
    (tree.put location node).node? other =
      if location = other then some node else tree.node? other := by
  simp only [node?, listed, if_false, put, find?_insertNode]

end FileTree

end PhotoTags
