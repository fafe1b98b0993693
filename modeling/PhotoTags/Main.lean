import PhotoTags.Cli.Run

/-!
The program: it takes up the files below the working directory and the settings beside the program,
runs on them, writes the files that the run changed, and prints what the run says.
-/

namespace PhotoTags.Program

def configName : String := "config.json"

/-- A file has to be read if it is an image or if it can be the settings or an argument ends in its
name. The content of other files does not matter. -/
def isWanted (arguments : List String) (name : String) : Bool :=
  (Path.mk name).isImage || name == configName || arguments.any (·.endsWith name)

def locationOf (path : String) : Location :=
  (path.splitOn "/").filter (· != "")

/-- The tree with the directory at a location, and with those that lead to it. -/
def addDirectory (tree : FileTree) (location : Location) : FileTree :=
  (List.range location.length).foldl
    (fun tree depth => tree.put (location.take (depth + 1)) .directory) tree

partial def addEntry (arguments : List String) (base : Location) (tree : FileTree)
    (entry : IO.FS.DirEntry) : IO FileTree := do
  let location := base ++ [entry.fileName]
  if ← entry.path.isDir then
    let mut tree := tree.put location .directory
    for inner in ← entry.path.readDir do
      tree ← addEntry arguments location tree inner
    return tree
  else if isWanted arguments entry.fileName then
    return tree.put location (.file (← IO.FS.readBinFile entry.path).toList)
  else
    return tree.put location (.file [])

def readTree (arguments : List String) : IO FileTree := do
  let directory ← IO.currentDir
  let working := locationOf directory.toString
  let mut tree := addDirectory { FileTree.empty with working } working
  for entry in ← directory.readDir do
    tree ← addEntry arguments working tree entry
  return tree

/-- The path of the settings beside the program, and the tree with them. -/
def addSettings (tree : FileTree) : IO (Path × FileTree) := do
  let some directory := (← IO.appPath).parent | return (⟨configName⟩, tree)
  let file := directory / configName
  let location := locationOf file.toString
  let tree := addDirectory tree location.dropLast
  if ← file.pathExists then
    return (⟨file.toString⟩, tree.put location (.file (← IO.FS.readBinFile file).toList))
  return (⟨file.toString⟩, tree)

def writeChanges (before after : FileTree) : IO Unit := do
  for (location, node) in after.nodes do
    if before.node? location != some node then
      match node with
      | .file content =>
          IO.FS.writeBinFile ("/" ++ "/".intercalate location) ⟨content.toArray⟩
      | .directory => pure ()

end PhotoTags.Program

def main (arguments : List String) : IO UInt32 := do
  let (beside, tree) ← PhotoTags.Program.addSettings (← PhotoTags.Program.readTree arguments)
  let outcome := PhotoTags.Cli.run .utc beside arguments tree
  PhotoTags.Program.writeChanges tree outcome.tree
  IO.print outcome.output
  IO.eprint outcome.errors
  return UInt32.ofNat outcome.exit
