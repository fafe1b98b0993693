import PhotoTags.Tiff.Content
import PhotoTags.Tiff.Datum

/-!
The walk over the directories of a block by which values are looked up. An entry that points to
another directory is followed at once, then the other entries, then the next directory of the chain.
A directory is left for good when one of its entries has the number 0, or points to a directory
already entered. Of the values found under one number the first counts.
-/

namespace PhotoTags.Tiff

inductive Outcome
  | directory (offset : Nat)
  | datum (value : Datum)
  | unreadable
  deriving DecidableEq, Repr

structure Visit where
  chain : Nat
  id : Nat
  outcome : Outcome
  deriving DecidableEq, Repr

/-- The visits of a walk and the offsets of the directories entered. -/
structure Trace where
  visits : List Visit
  entered : List Nat
  deriving DecidableEq, Repr

def fitsAt (order : ByteOrder) (block : Bytes) (offset : Nat) : Bool :=
  match number? order block offset 2 with
  | some count => offset + 2 + Entry.size * count ≤ block.length
  | none => false

def wholeAt? (order : ByteOrder) (block : Bytes) (offset : Nat) : Option (List Entry × Bytes) :=
  if fitsAt order block offset then
    match entriesAt order block offset with
    | (entries, some rest) => some (entries, rest)
    | (_, none) => none
  else none

/-- Entries of these numbers point to directories, wherever they stand. -/
def isPointerId (id : Nat) : Bool :=
  id == exifPointer || id == gpsPointer

section

variable (order : ByteOrder) (block : Bytes) (zone : Option (List Char))

def outcome (entry : Entry) : Outcome :=
  match FieldType.ofCode? entry.typeCode with
  | none => .unreadable
  | some type =>
      match entry.valueBytes? order block type with
      | none => .unreadable
      | some bytes =>
          if isPointerId entry.id && fitsAt order block (entry.offset order) then
            .directory (entry.offset order)
          else
            match Datum.ofValue? order zone entry.id type entry.count bytes with
            | some value => .datum value
            | none => .unreadable

/-- The entries of one directory up to the first with the number 0, without following pointers. -/
def listing (entries : List Entry) : List (Nat × Outcome) :=
  (entries.takeWhile (·.id != 0)).map fun entry => (entry.id, outcome order block zone entry)

/-- The offset of the directory that follows in the chain. A block that ends soon has none. -/
def nextOffset? (rest : Bytes) : Option Nat :=
  if rest.length < Entry.size then none
  else
    match number? order rest 0 4 with
    | some offset =>
        if offset = 0 then none
        else if fitsAt order block offset then some offset
        else none
    | none => none

/-- Visits entries one after another; `enter` walks the directory that one points to, and `next`
goes on when all are done. -/
def walkEntries (chain : Nat) (enter : List Nat → Nat → Trace) (next : List Nat → Trace) :
    List Entry → List Nat → Trace
  | [], entered => next entered
  | entry :: rest, entered =>
      if entry.id = 0 then ⟨[], entered⟩
      else
        match outcome order block zone entry with
        | .directory offset =>
            if entered.contains offset then ⟨[], entered⟩
            else
              let inner := enter (offset :: entered) offset
              let others := walkEntries chain enter next rest inner.entered
              ⟨⟨chain, entry.id, .directory offset⟩ :: inner.visits ++ others.visits,
                others.entered⟩
        | outcome =>
            let others := walkEntries chain enter next rest entered
            ⟨⟨chain, entry.id, outcome⟩ :: others.visits, others.entered⟩

/-- Walks the directory at an offset and the rest of its chain. No directory is entered twice, so
that the fuel of one unit for each byte of the block lasts. -/
def walkAt : Nat → Nat → List Nat → Nat → Trace
  | 0, _, entered, _ => ⟨[], entered⟩
  | fuel + 1, chain, entered, offset =>
      match wholeAt? order block offset with
      | none => ⟨[], entered⟩
      | some (entries, rest) =>
          walkEntries order block zone chain (walkAt fuel chain)
            (fun entered =>
              match nextOffset? order block rest with
              | none => ⟨[], entered⟩
              | some offset =>
                  if entered.contains offset then ⟨[], entered⟩
                  else walkAt fuel (chain + 1) (offset :: entered) offset)
            entries entered

/-- The Exif directory that the first directory of the chain points to first. -/
def exifListing (entries : List Entry) : List (Nat × Outcome) :=
  match entries.find? (·.id == exifPointer) with
  | none => []
  | some entry =>
      match outcome order block none entry with
      | .directory offset =>
          match wholeAt? order block offset with
          | some (inner, _) => listing order block none inner
          | none => []
      | _ => []

end

def offsetTime : Nat := 0x9010

def offsetTimeTaken : Nat := 0x9011

def offsetTimeDigitized : Nat := 0x9012

def Outcome.text? : Outcome → Option (List Char)
  | .datum value => value.text?
  | _ => none

/-- An offset whose minutes have less than two bytes behind the colon gets a zero behind them. -/
def repairedOffset (text : List Char) : List Char :=
  match Text.cutAt ':' text with
  | some (_, minutes) => if Text.byteLength minutes < 2 then text ++ ['0'] else text
  | none => text

/-- The text of the time zone: that of the time of exposure or of digitizing, whichever stands first,
else that of the change of the file. -/
def zoneText? (items : List (Nat × Outcome)) : Option (List Char) :=
  let ofPicture := items.find? fun item =>
    item.1 == offsetTimeTaken || item.1 == offsetTimeDigitized
  let ofFile := (items.filter fun item => item.1 == offsetTime).getLast?
  ((ofPicture.or ofFile).bind fun item => item.2.text?).map repairedOffset

structure Survey where
  order : ByteOrder
  zone : Option (List Char)
  visits : List Visit
  deriving DecidableEq, Repr

def survey? (block : Bytes) : Option Survey :=
  match header? block with
  | none => none
  | some header =>
      match wholeAt? header.order block header.first with
      | none => none
      | some (entries, _) =>
          let zone := zoneText? (exifListing header.order block entries)
          some ⟨header.order, zone,
            (walkAt header.order block zone (block.length + 1) 0 [] header.first).visits⟩

def Survey.find? (survey : Survey) (chain id : Nat) : Option Datum :=
  survey.visits.findSome? fun visit =>
    if visit.chain = chain ∧ visit.id = id then
      match visit.outcome with
      | .datum value => some value
      | .directory offset => some (.numbers .long [offset])
      | .unreadable => none
    else none

def Survey.thumbnail? (survey : Survey) (block : Bytes) : Option Bytes :=
  thumbnailIn? block ((survey.find? 1 thumbnailOffset).bind Datum.word?)
    ((survey.find? 1 thumbnailLength).bind Datum.word?)

end PhotoTags.Tiff
