import PhotoTags.Files.Tree
import PhotoTags.Json.Document
import PhotoTags.Json.Value

/-!
Settings and the file that keeps them. The file holds two groups: what is done with output, and how
values are displayed. A group may be an object, or an array of its values in their order.
-/

namespace PhotoTags

structure Settings where
  dryRun : Bool
  backups : Bool
  json : Bool
  precision : Nat
  deriving DecidableEq, Repr

inductive SettingsError
  | unreadable
  | malformed
  | unwritable
  deriving DecidableEq, Repr

def SettingsError.message : SettingsError → String
  | unreadable => "Failed to read config file"
  | malformed => "Failed to parse config file"
  | unwritable => "Failed to write config file"

namespace Settings

def default : Settings := ⟨false, true, false, 6⟩

def document (settings : Settings) : Json.Document :=
  .object [("output", .object [("dry_run", .bool settings.dryRun),
      ("backup_originals", .bool settings.backups), ("json", .bool settings.json)]),
    ("display", .object [("coordinate_precision", .number settings.precision)])]

def text (settings : Settings) : String :=
  settings.document.text

/-- The value of the only member with a name. -/
def member? (members : List (Option String × Json)) (name : String) : Option Json :=
  match members.filter (·.1 == some name) with
  | [(_, value)] => some value
  | _ => none

/-- The values of a group in the order of their names. An object may have other members besides. -/
def group? (names : List String) : Json → Option (List Json)
  | .object members =>
      if members.all (·.1.isSome) then names.mapM (member? members) else none
  | .array items => if items.length = names.length then some items else none
  | _ => none

def bool? : Json → Option Bool
  | .bool value => some value
  | _ => none

def precision? : Json → Option Nat
  | .number literal => (Text.natural? literal).filter (· < Text.bound64)
  | _ => none

def output? (json : Json) : Option (Bool × Bool × Bool) :=
  match group? ["dry_run", "backup_originals", "json"] json with
  | some [dryRun, backups, asJson] => do
      some (← bool? dryRun, ← bool? backups, ← bool? asJson)
  | _ => none

def display? (json : Json) : Option Nat :=
  match group? ["coordinate_precision"] json with
  | some [precision] => precision? precision
  | _ => none

def ofJson? (json : Json) : Option Settings :=
  match group? ["output", "display"] json with
  | some [output, display] => do
      let (dryRun, backups, asJson) ← output? output
      some ⟨dryRun, backups, asJson, ← display? display⟩
  | _ => none

def ofText? (text : List Char) : Option Settings :=
  (Json.read? text).bind ofJson?

def ofContent (content : Bytes) : Except SettingsError Settings :=
  match Text.ofUtf8? content with
  | none => .error .unreadable
  | some text =>
      match ofText? text with
      | none => .error .malformed
      | some settings => .ok settings

/-- The settings in a file, those by default if it is not there. -/
def load (tree : FileTree) (path : Path) : Except SettingsError Settings :=
  if tree.holds path then
    match tree.read path with
    | .error _ => .error .unreadable
    | .ok content => ofContent content
  else .ok default

def save (settings : Settings) (tree : FileTree) (path : Path) : Except SettingsError FileTree :=
  match tree.write path (Text.utf8 settings.text.toList) with
  | .error _ => .error .unwritable
  | .ok tree => .ok tree

end Settings

end PhotoTags
