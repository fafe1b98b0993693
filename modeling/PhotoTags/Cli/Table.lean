import PhotoTags.Decimal.Text
import PhotoTags.Json.Document
import PhotoTags.Report
import PhotoTags.Text.Wrap

/-!
Reports as they are printed: as a table with a row for each attribute, in colour where a value was
changed, or as JSON.
-/

namespace PhotoTags.Cli

def green : String := "\x1b[32m"

def dim : String := "\x1b[2m"

def bold : String := "\x1b[1m"

def plain : String := "\x1b[0m"

/-- Values are broken into lines of so many bytes. -/
def valueWidth : Nat := 46

/-- Tags are filled up to so many characters. -/
def tagWidth : Nat := 22

def indent : List Char := List.replicate 27 ' '

def rowLines (tag value : List Char) : List (List Char) :=
  match Text.wrap valueWidth value with
  | [] => []
  | first :: rest =>
      (Text.padEnd tagWidth ' ' tag ++ [' ', ':', ' '] ++ first) :: rest.map (indent ++ ·)

def row (tag value : String) : List String :=
  (rowLines tag.toList value.toList).map fun line => "  " ++ String.ofList line

def greenRow (tag value : String) : List String :=
  (rowLines tag.toList value.toList).map fun line =>
    "  " ++ green ++ String.ofList line ++ plain

def rule (mark : Char) (width : Nat) : String :=
  dim ++ String.ofList (List.replicate width mark) ++ plain

def ruleHeavy : String := rule '═' 72

def ruleLight : String := "  " ++ rule '─' 70

def rowIfAny (tag value : String) : List String :=
  if value = "" then [] else row tag value

/-- More places than these cannot be printed. -/
def maxPlaces : Nat := 65535

def degreesText (precision : Nat) (degrees : Float) : String :=
  String.ofList (Decimal.fixedText precision (Decimal.ofFloat degrees))

/-- What the clocks of a zone show at an instant, unless it lies outside the range of dates. -/
def takenText? (zone : Zone) (milliseconds : Int) : Option String :=
  let instant := milliseconds / 1000
  if Zone.inRange instant then
    let time := LocalTime.ofSeconds (instant + zone.offsetAt instant)
    some (String.ofList (Calendar.Layout.dashes.write time))
  else none

def attributeRows (report : Report) : List String :=
  if report.attributes.entries.isEmpty then
    ["  " ++ dim ++ "(no EXIF metadata found)" ++ plain]
  else
    report.attributes.entries.flatMap fun entry =>
      if report.updated.contains entry.1 then greenRow entry.1 entry.2 else row entry.1 entry.2

def labelRows (report : Report) : List String :=
  row "Thumbnail" (if report.attributes.hasThumbnail then "yes" else "no") ++
    rowIfAny "Orientation (label)" report.typed.orientation ++
    rowIfAny "White balance (label)" report.typed.whiteBalance

def positionRows (precision : Nat) (report : Report) : List String :=
  match report.typed.position with
  | some position =>
      row "Position" (degreesText precision position.latitude ++ ", " ++
        degreesText precision position.longitude)
  | none => []

def takenRows (zone : Zone) (report : Report) : List String :=
  match report.typed.milliseconds.bind (takenText? zone) with
  | some taken => row "Taken (local)" taken
  | none => []

def pendingRows (report : Report) : List String :=
  match report.pending with
  | some text => ruleLight :: row "Would commit" text
  | none => []

def isPrintable (precision : Nat) (report : Report) : Bool :=
  report.error.isSome || report.typed.position.isNone || precision ≤ maxPlaces

def headLines (report : Report) : List String :=
  ["", bold ++ "File:" ++ plain ++ " " ++ report.path.text, ruleHeavy]

/-- The lines of a report. They end before a position that cannot be printed. -/
def tableLines (zone : Zone) (precision : Nat) (report : Report) : List String :=
  if report.error.isSome then headLines report ++ [""]
  else
    headLines report ++ attributeRows report ++ ruleLight :: labelRows report ++
      if isPrintable precision report then
        positionRows precision report ++ takenRows zone report ++ pendingRows report ++ [""]
      else []

def printed (lines : List String) : String :=
  String.ofList (lines.flatMap fun line => line.toList ++ ['\n'])

def table (zone : Zone) (precision : Nat) (report : Report) : String :=
  printed (tableLines zone precision report)

section

open Json

def optional {α : Type} (document : α → Document) : Option α → Document
  | some value => document value
  | none => .null

def floatDocument (number : Float) : Document :=
  .literal (Decimal.jsonText (Decimal.ofFloat number))

def positionDocument (position : Position) : Document :=
  .object [("latitude", floatDocument position.latitude),
    ("longitude", floatDocument position.longitude)]

/-- A report as JSON, its members in the order of their names. -/
def reportDocument (report : Report) : Document :=
  .object [
    ("attributes", .object (report.attributes.entries.map fun entry =>
      (entry.1, .string entry.2))),
    ("date_time", optional .number report.typed.milliseconds),
    ("error", optional .string report.error),
    ("has_thumbnail", .bool report.attributes.hasThumbnail),
    ("lat_long", optional positionDocument report.typed.position),
    ("orientation", .string report.typed.orientation),
    ("path", .string report.path.text),
    ("pending", optional .string report.pending),
    ("updated", .array (report.updated.map .string)),
    ("white_balance", .string report.typed.whiteBalance)]

def reportsText (reports : List Report) : String :=
  printed [(Document.array (reports.map reportDocument)).text]

end

end PhotoTags.Cli
