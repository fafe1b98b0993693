import PhotoTags.Attributes
import PhotoTags.Calendar.Layout
import PhotoTags.Calendar.Zone
import PhotoTags.Labels
import PhotoTags.Position

/-!
The values of some tags by their meaning: labels, the position and the time at which an image was
taken. A value that is missing or cannot be read gives an empty label or nothing.
-/

namespace PhotoTags

namespace Attributes

def integer? (attributes : Attributes) (name : String) : Option Int :=
  (attributes.get? name).bind fun value => Text.signed32? value.toList

def orientationLabel (attributes : Attributes) : String :=
  match attributes.integer? "Orientation" with
  | some code => (Orientation.ofCode code).label
  | none => ""

def whiteBalanceLabel (attributes : Attributes) : String :=
  match (attributes.integer? "WhiteBalance").bind WhiteBalance.ofCode? with
  | some balance => balance.label
  | none => ""

def position? (attributes : Attributes) : Option Position :=
  match attributes.get? "GPSLatitude", attributes.get? "GPSLatitudeRef",
      attributes.get? "GPSLongitude", attributes.get? "GPSLongitudeRef" with
  | some latitude, some latitudeRef, some longitude, some longitudeRef =>
      some ⟨Position.degrees latitude latitudeRef, Position.degrees longitude longitudeRef⟩
  | _, _, _, _ => none

def localTime? (value : String) : Option LocalTime :=
  Calendar.Layout.colons.read? value.toList

/-- The time of the `DateTime` tag in milliseconds since the start of 1970, its clock being one of
the zone. -/
def milliseconds? (attributes : Attributes) (zone : Zone) : Option Int :=
  ((attributes.get? "DateTime").bind localTime?).bind zone.milliseconds

end Attributes

structure Typed where
  orientation : String
  whiteBalance : String
  position : Option Position
  milliseconds : Option Int

def Attributes.typedIn (attributes : Attributes) (zone : Zone) : Typed :=
  ⟨attributes.orientationLabel, attributes.whiteBalanceLabel, attributes.position?,
    attributes.milliseconds? zone⟩

end PhotoTags
