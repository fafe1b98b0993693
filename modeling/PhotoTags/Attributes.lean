import PhotoTags.Exchange.Decode

/-!
The attributes of one image: names with their values in the order of the names, and whether the
image has a thumbnail. The order of names is that of their code points, which is also the order of
their bytes.
-/

namespace PhotoTags

structure Attributes where
  entries : List Entry
  hasThumbnail : Bool
  deriving DecidableEq, Repr

namespace Attributes

def empty : Attributes := ⟨[], false⟩

def insert (name value : String) : List Entry → List Entry
  | [] => [(name, value)]
  | (other, kept) :: rest =>
      if name < other then (name, value) :: (other, kept) :: rest
      else if name = other then (name, value) :: rest
      else (other, kept) :: insert name value rest

def get? (attributes : Attributes) (name : String) : Option String :=
  (attributes.entries.find? (·.1 == name)).map (·.2)

/-- Sets any name but that of the thumbnail entry, which stays unset. -/
def set (attributes : Attributes) (name value : String) : Attributes :=
  if name = Exchange.thumbnailName then attributes
  else { attributes with entries := insert name value attributes.entries }

/-- The text is the word `true` in any case of its letters. -/
def isTrue (value : String) : Bool :=
  Text.asciiLower value.toList = "true".toList

def add (attributes : Attributes) (entry : Entry) : Attributes :=
  if entry.1 = Exchange.thumbnailName then { attributes with hasThumbnail := isTrue entry.2 }
  else attributes.set entry.1 entry.2

/-- Of two entries with one name the later one counts. -/
def ofEntries (entries : List Entry) : Attributes :=
  entries.foldl add empty

def load (text : String) : Except Exchange.Malformed Attributes :=
  (Exchange.decode text).map ofEntries

/-- Puts the attributes that a text holds in place of these; a malformed text leaves them as they
are. -/
def reload (attributes : Attributes) (text : String) : Except Exchange.Malformed Unit × Attributes :=
  match load text with
  | .ok loaded => (.ok (), loaded)
  | .error fault => (.error fault, attributes)

def save (attributes : Attributes) : String :=
  Exchange.encode attributes.entries

theorem set_thumbnailName (attributes : Attributes) (value : String) :
    attributes.set Exchange.thumbnailName value = attributes := by
  simp [set]

theorem find?_insert (name other value : String) (entries : List Entry) :
    ((insert name value entries).find? (·.1 == other)).map (·.2) =
      if name = other then some value else (entries.find? (·.1 == other)).map (·.2) := by
  induction entries with
  | nil => by_cases same : name = other <;> simp [insert, same]
  | cons entry rest ih =>
      obtain ⟨kept, held⟩ := entry
      by_cases before : name < kept
      · simp only [insert, before, if_true, List.find?_cons]
        by_cases same : name = other
        · simp [same]
        · simp [same, beq_eq_false_iff_ne.mpr same]
      · by_cases found : name = kept
        · subst kept
          simp only [insert, before, if_false, if_true, List.find?_cons]
          by_cases same : name = other
          · simp [same]
          · simp [same, beq_eq_false_iff_ne.mpr same]
        · simp only [insert, before, found, if_false, List.find?_cons]
          by_cases stored : kept = other
          · subst kept
            simp [found]
          · simp only [beq_eq_false_iff_ne.mpr stored, ih]

theorem get?_set (attributes : Attributes) (name other value : String)
    (isTag : name ≠ Exchange.thumbnailName) :
    (attributes.set name value).get? other =
      if name = other then some value else attributes.get? other := by
  simp only [set, isTag, if_false, get?, find?_insert]

theorem hasThumbnail_set (attributes : Attributes) (name value : String) :
    (attributes.set name value).hasThumbnail = attributes.hasThumbnail := by
  unfold set
  split <;> rfl

end Attributes

end PhotoTags
