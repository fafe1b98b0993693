import PhotoTags.Tiff.Walk

/-!
The position that a block gives: the references and coordinates of its GPS directory. A coordinate
that is not there is three times `0/0`.
-/

namespace PhotoTags.Tiff

structure Coordinate where
  degrees : Nat × Nat
  minutes : Nat × Nat
  seconds : Nat × Nat
  deriving DecidableEq, Repr

def Coordinate.missing : Coordinate := ⟨(0, 0), (0, 0), (0, 0)⟩

structure Location where
  latitudeRef : Option Char
  latitude : Coordinate
  longitudeRef : Option Char
  longitude : Coordinate
  deriving DecidableEq, Repr

/-- Ranges of the numbers that entries are known by. A GPS directory without any such entry gives
no position. -/
def knownIds : List (Nat × Nat) :=
  [(0x01, 0x1E), (0x100, 0x103), (0x106, 0x106), (0x10E, 0x110), (0x112, 0x112), (0x115, 0x116),
   (0x11A, 0x11C), (0x128, 0x128), (0x131, 0x132), (0x13C, 0x13C), (0x13E, 0x13F),
   (0x201, 0x202), (0x211, 0x211), (0x213, 0x214), (0x8298, 0x8298), (0x829A, 0x829A),
   (0x829D, 0x829D), (0x8769, 0x8769), (0x8822, 0x8822), (0x8824, 0x8825), (0x8827, 0x8828),
   (0x8830, 0x8830), (0x8832, 0x8832), (0x9000, 0x9000), (0x9003, 0x9004), (0x9010, 0x9012),
   (0x9101, 0x9101), (0x9201, 0x920A), (0x9214, 0x9214), (0x927C, 0x927C), (0x9286, 0x9286),
   (0x9290, 0x9292), (0xA000, 0xA005), (0xA20B, 0xA20B), (0xA20E, 0xA210), (0xA214, 0xA215),
   (0xA217, 0xA217), (0xA300, 0xA302), (0xA401, 0xA40C), (0xA420, 0xA420), (0xA432, 0xA434),
   (0xA500, 0xA500)]

def isKnownId (id : Nat) : Bool :=
  knownIds.any fun range => range.1 ≤ id && id ≤ range.2

namespace Location

def empty : Location := ⟨none, .missing, none, .missing⟩

def reference? (outcome : Outcome) : Option Char :=
  outcome.text?.bind (·.head?)

def coordinate? : List (Nat × Nat) → Option Coordinate
  | degrees :: minutes :: seconds :: _ => some ⟨degrees, minutes, seconds⟩
  | _ => none

/-- The coordinate that an entry sets, `kept` if it sets none. There is no position at all if it
has too few ratios. -/
def coordinateOr? (kept : Coordinate) (outcome : Outcome) : Option Coordinate :=
  match outcome with
  | .datum (.ratios _ [_]) => some kept
  | .datum (.ratios _ values) => coordinate? values
  | _ => some kept

def add? (location : Location) (item : Nat × Outcome) : Option Location :=
  let (id, outcome) := item
  if id = 1 then
    some { location with latitudeRef := (reference? outcome).or location.latitudeRef }
  else if id = 2 then
    (coordinateOr? location.latitude outcome).map fun latitude => { location with latitude }
  else if id = 3 then
    some { location with longitudeRef := (reference? outcome).or location.longitudeRef }
  else if id = 4 then
    (coordinateOr? location.longitude outcome).map fun longitude => { location with longitude }
  else some location

def ofListing? (listing : List (Nat × Outcome)) : Option Location :=
  if listing.any fun item => isKnownId item.1 then listing.foldlM add? empty else none

end Location

def Survey.location? (survey : Survey) (block : Bytes) : Option Location :=
  let pointer := survey.visits.find? fun visit =>
    visit.id == gpsPointer && visit.outcome != .unreadable
  match pointer with
  | some ⟨_, _, .directory offset⟩ =>
      match wholeAt? survey.order block offset with
      | some (entries, _) =>
          Location.ofListing? (listing survey.order block survey.zone entries)
      | none => none
  | _ => none

end PhotoTags.Tiff
