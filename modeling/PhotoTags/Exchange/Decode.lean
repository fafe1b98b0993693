import PhotoTags.Exchange.Encode
import PhotoTags.Exchange.Malformed

/-!
Reading an attribute text. A name ends at the first equals sign, a length at the first space, and a
value has the bytes that its length says, so that values may hold anything. What follows the last
entry is ignored. Offsets count bytes from the start of the text.
-/

namespace PhotoTags.Exchange

inductive Cut
  | at (before behind : List Char)
  | short
  | insideCharacter
  deriving DecidableEq, Repr

/-- Takes characters until their bytes are used up; `before` holds those taken so far, backwards. -/
def cutBytes : List Char → Nat → List Char → Cut
  | before, 0, text => .at before.reverse text
  | _, _ + 1, [] => .short
  | before, left + 1, c :: rest =>
      if c.utf8Size ≤ left + 1 then cutBytes (c :: before) (left + 1 - c.utf8Size) rest
      else .insideCharacter

def valueAt (name : String) (length offset : Nat) (text : List Char) :
    Except Malformed (List Char × List Char) :=
  match cutBytes [] length text with
  | .at value rest => .ok (value, rest)
  | .short => .error ⟨offset, .overrun name length (Text.byteLength text)⟩
  | .insideCharacter => .error ⟨offset, .splitCharacter name⟩

def lengthAt (name : String) (offset : Nat) (text : List Char) :
    Except Malformed (Nat × Nat × List Char) :=
  match Text.cutAt ' ' text with
  | none => .error ⟨offset, .lengthUnended name⟩
  | some (digits, rest) =>
      match Text.unsigned? Text.bound64 digits with
      | none => .error ⟨offset, .badLength name (String.ofList digits)⟩
      | some length => .ok (length, offset + Text.byteLength digits + 1, rest)

/-- Where reading goes on: the byte offset and the text from there. -/
structure Cursor where
  offset : Nat
  text : List Char
  deriving DecidableEq, Repr

/-- The entry at the cursor, which is number `index` of `count`, and the cursor behind it. -/
def entryAt (index count : Nat) (cursor : Cursor) : Except Malformed (Entry × Cursor) :=
  match Text.cutAt '=' cursor.text with
  | none => .error ⟨cursor.offset, .nameUnended index count⟩
  | some (nameText, rest) =>
      let name := String.ofList nameText
      match lengthAt name (cursor.offset + Text.byteLength nameText + 1) rest with
      | .error fault => .error fault
      | .ok (length, offset, rest) =>
          match valueAt name length offset rest with
          | .error fault => .error fault
          | .ok (value, rest) => .ok ((name, String.ofList value), ⟨offset + length, rest⟩)

/-- The last `left` of `count` entries, and the cursor behind them. -/
def entriesAt (count : Nat) : Nat → Cursor → Except Malformed (List Entry × Cursor)
  | 0, cursor => .ok ([], cursor)
  | left + 1, cursor =>
      match entryAt (count - (left + 1)) count cursor with
      | .error fault => .error fault
      | .ok (entry, cursor) =>
          match entriesAt count left cursor with
          | .error fault => .error fault
          | .ok (entries, cursor) => .ok (entry :: entries, cursor)

def countAt (text : List Char) : Except Malformed (Nat × Cursor) :=
  match Text.cutAt ' ' text with
  | none => .error ⟨0, .countUnended⟩
  | some (digits, rest) =>
      match Text.unsigned? Text.bound64 digits with
      | none => .error ⟨0, .badCount (String.ofList digits)⟩
      | some count => .ok (count, ⟨Text.byteLength digits + 1, rest⟩)

def decodeText (text : List Char) : Except Malformed (List Entry × Cursor) :=
  match countAt text with
  | .error fault => .error fault
  | .ok (count, cursor) => entriesAt count count cursor

/-- The entries of a text, in its order; a name may occur more than once. -/
def decode (text : String) : Except Malformed (List Entry) :=
  (decodeText text.toList).map (·.1)

example : (decode "2 Make=3 FOOModel=3 BAR").toOption = some [("Make", "FOO"), ("Model", "BAR")] := by decide

end PhotoTags.Exchange
