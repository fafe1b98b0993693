import PhotoTags.Text.Cut

/-!
Paths of files, as texts with slashes between their parts. Two paths are the same if they have the
same components; a part that is empty or a single dot is none, but for a dot at the start.
-/

namespace PhotoTags

structure Path where
  text : String
  deriving DecidableEq, Repr

namespace Path

def parts (path : Path) : List String :=
  (Text.fields '/' path.text.toList).map String.ofList

def isAbsolute (path : Path) : Bool :=
  path.text.toList.head? == some '/'

/-- The components; two paths with the same ones are the same path. -/
def components (path : Path) : List String :=
  let named := (path.parts.drop 1).filter fun part => part ≠ "" ∧ part ≠ "."
  match path.parts.head? with
  | some first =>
      if first ≠ "" then first :: named
      else if path.isAbsolute then "/" :: named
      else named
  | none => named

def same (left right : Path) : Bool :=
  left.components = right.components

/-- A text backwards, without the slashes and single dots that come first. -/
def dropLastDots : List Char → List Char
  | '/' :: rest => dropLastDots rest
  | '.' :: '/' :: rest => dropLastDots rest
  | text => text

def split (path : Path) : List Char × List Char :=
  let backwards := dropLastDots path.text.toList.reverse
  ((backwards.dropWhile (· != '/')).reverse, (backwards.takeWhile (· != '/')).reverse)

/-- The last part of the path, unless it stands for a directory's own or its parent's place. -/
def fileName? (path : Path) : Option (List Char) :=
  let name := path.split.2
  if name = [] ∨ name = ['.'] ∨ name = ['.', '.'] then none else some name

/-- A file name before and behind its last dot. A dot at the start does not count. -/
def stemAndExtension (name : List Char) : List Char × Option (List Char) :=
  match Text.cutAt '.' name.reverse with
  | none => (name, none)
  | some (extension, stem) =>
      if stem = [] then (name, none) else (stem.reverse, some extension.reverse)

def extension? (path : Path) : Option (List Char) :=
  path.fileName?.bind fun name => (stemAndExtension name).2

/-- The path with the extension replaced, or with one put behind the file name. -/
def withExtension (path : Path) (extension : List Char) : Path :=
  match path.fileName? with
  | none => path
  | some name =>
      ⟨String.ofList (path.split.1 ++ (stemAndExtension name).1 ++ '.' :: extension)⟩

def join (path : Path) (rest : List String) : Path :=
  let base := path.text.toList
  let below := Text.joined '/' (rest.map String.toList)
  if base.getLast? = some '/' ∨ base = [] then ⟨String.ofList (base ++ below)⟩
  else ⟨String.ofList (base ++ '/' :: below)⟩

/-- Where the first state of a file is kept: `.bak` stands behind its extension. -/
def backup (path : Path) : Path :=
  path.withExtension (path.extension?.getD [] ++ ['.', 'b', 'a', 'k'])

example : (Path.mk "photo.jpg").backup = ⟨"photo.jpg.bak"⟩ := by decide

example : (Path.mk "sub/photo").backup = ⟨"sub/photo..bak"⟩ := by decide

end Path

end PhotoTags
