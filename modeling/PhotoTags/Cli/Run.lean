import PhotoTags.Cli.Arguments
import PhotoTags.Cli.Table
import PhotoTags.Codec.Jpeg
import PhotoTags.Files.Collect
import PhotoTags.Settings

/-!
What the program does with its arguments and the files of the working directory: it shows the
attributes of images or changes them, takes a thumbnail out of one, or writes the settings.
-/

namespace PhotoTags.Cli

structure Outcome where
  exit : Nat
  output : String
  errors : String
  tree : FileTree
  deriving DecidableEq, Repr

def done (tree : FileTree) (output : String) : Outcome :=
  ⟨0, output, "", tree⟩

def failed (tree : FileTree) (message : String) : Outcome :=
  ⟨1, "", "Error: " ++ message ++ "\n", tree⟩

def aborted (tree : FileTree) (output : String) : Outcome :=
  ⟨101, output, "", tree⟩

def versionText : String := "exif-attrs 0.1.0\n"

def usageText : String :=
  "Show and edit EXIF attributes of JPEG images\n\nUsage: exif-attrs [OPTIONS] [PATH]...\n"

/-- The settings file: the one that the arguments name, or else the one beside the program. -/
def configPath (beside : Path) (arguments : Arguments) : Path :=
  arguments.config.getD beside

def runInit (beside : Path) (arguments : Arguments) (tree : FileTree) : Outcome :=
  let path := configPath beside arguments
  match Settings.default.save tree path with
  | .error cause => failed tree cause.message
  | .ok tree => done tree ("Default config written to " ++ path.text ++ "\n")

def settingsFor (beside : Path) (arguments : Arguments) (tree : FileTree) :
    Except SettingsError Settings :=
  (Settings.load tree (configPath beside arguments)).map fun settings =>
    { settings with
      dryRun := settings.dryRun || arguments.dryRun
      json := settings.json || arguments.json }

def takeThumbnail (image target : Path) (codec : JpegCodec) : Outcome :=
  match ImageFile.openAt image codec with
  | (.error .abort, codec) => aborted codec.tree ""
  | (.error (.error cause), codec) => failed codec.tree cause.message
  | (.ok file, codec) =>
      match file.thumbnail codec with
      | (.error .abort, codec) => aborted codec.tree ""
      | (.error (.error cause), codec) => failed codec.tree cause.message
      | (.ok none, codec) => done codec.tree ""
      | (.ok (some bytes), codec) =>
          match codec.tree.write target bytes with
          | .error cause => failed codec.tree cause.message
          | .ok tree =>
              done tree s!"Thumbnail ({bytes.length} bytes) written to {target.text}\n"

def runThumbnail (images : List Path) (target : Path) (codec : JpegCodec) : Outcome :=
  match images with
  | [image] => takeThumbnail image target codec
  | images =>
      failed codec.tree s!"--thumbnail needs exactly one image, found {images.length}"

def reportOn (zone : Zone) (settings : Settings) (edits : List Edit) (image : Path)
    (codec : JpegCodec) : Option Report × JpegCodec :=
  if edits.isEmpty then inspect zone image codec
  else update zone settings.dryRun image edits codec

def canPrint (settings : Settings) (report : Report) : Bool :=
  settings.json || isPrintable settings.precision report

/-- The reports on images one after another, and whether they are all there: an abort ends them
early, and so does a report that cannot be printed. -/
def reportsOn (zone : Zone) (settings : Settings) (edits : List Edit) :
    List Path → JpegCodec → List Report × Bool × JpegCodec
  | [], codec => ([], true, codec)
  | image :: rest, codec =>
      match reportOn zone settings edits image codec with
      | (none, codec) => ([], false, codec)
      | (some report, codec) =>
          if canPrint settings report then
            let (reports, finished, codec) := reportsOn zone settings edits rest codec
            (report :: reports, finished, codec)
          else ([report], false, codec)

def tables (zone : Zone) (settings : Settings) (reports : List Report) : String :=
  reports.foldl (fun text report => text ++ table zone settings.precision report) ""

def runReports (zone : Zone) (settings : Settings) (edits : List Edit) (images : List Path)
    (codec : JpegCodec) : Outcome :=
  let (reports, finished, codec) := reportsOn zone settings edits images codec
  if settings.json then
    if finished then done codec.tree (reportsText reports) else aborted codec.tree ""
  else if finished then done codec.tree (tables zone settings reports)
  else aborted codec.tree (tables zone settings reports)

def runImages (zone : Zone) (beside : Path) (arguments : Arguments) (tree : FileTree) : Outcome :=
  match settingsFor beside arguments tree with
  | .error cause => failed tree cause.message
  | .ok settings =>
      let images := tree.images arguments.paths
      let codec := JpegCodec.new tree settings.backups
      if images.isEmpty then
        failed tree "No supported image files found in the specified paths."
      else
        match arguments.thumbnail with
        | some target => runThumbnail images target codec
        | none => runReports zone settings arguments.edits images codec

def runParsed (zone : Zone) (beside : Path) (arguments : Arguments) (tree : FileTree) : Outcome :=
  if arguments.init then runInit beside arguments tree
  else if arguments.paths.isEmpty then
    failed tree "No input files or directories specified. Use --help for usage."
  else runImages zone beside arguments tree

/-- A run of the program in a zone, with the path of the settings beside it. -/
def run (zone : Zone) (beside : Path) (arguments : List String) (tree : FileTree) : Outcome :=
  match parse arguments with
  | .ok arguments => runParsed zone beside arguments tree
  | .error (.error cause) => ⟨2, "", "error: " ++ cause.message ++ "\n", tree⟩
  | .error .version => done tree versionText
  | .error .help => done tree usageText

end PhotoTags.Cli
