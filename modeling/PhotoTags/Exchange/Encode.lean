import PhotoTags.Text.Numeral

/-!
Attribute sets as one text: the number of entries and a space, then for each entry its name, an
equals sign, the length of its value in bytes, a space and the value. Nothing is escaped and
nothing stands between two entries.
-/

namespace PhotoTags

abbrev Entry := String × String

namespace Exchange

/-- The name under which a set says whether its image has a thumbnail. No tag has this name. -/
def thumbnailName : String := "hasThumbnail"

def entryText (entry : Entry) : List Char :=
  entry.1.toList ++ '=' :: Text.decimal (Text.byteLength entry.2.toList) ++ ' ' :: entry.2.toList

def setText (entries : List Entry) : List Char :=
  Text.decimal entries.length ++ ' ' :: entries.flatMap entryText

def withoutThumbnail (entries : List Entry) : List Entry :=
  entries.filter (·.1 != thumbnailName)

def thumbnailEntry (hasThumbnail : Bool) : Entry :=
  (thumbnailName, if hasThumbnail then "true" else "false")

/-- The text of the entries; a thumbnail entry among them is left out. -/
def encode (entries : List Entry) : String :=
  String.ofList (setText (withoutThumbnail entries))

def encodeWithThumbnail (entries : List Entry) (hasThumbnail : Bool) : String :=
  String.ofList (setText (withoutThumbnail entries ++ [thumbnailEntry hasThumbnail]))

end Exchange

end PhotoTags
