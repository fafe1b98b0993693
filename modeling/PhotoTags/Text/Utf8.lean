/-!
Texts as bytes. Encoding is UTF-8; decoding accepts exactly the encodings.
-/

namespace PhotoTags

abbrev Bytes := List UInt8

namespace Text

def utf8 (text : List Char) : Bytes :=
  text.flatMap String.utf8EncodeChar

def ofUtf8? (bytes : Bytes) : Option (List Char) :=
  (String.fromUTF8? ⟨bytes.toArray⟩).map String.toList

def ofLatin1 (bytes : Bytes) : List Char :=
  bytes.map fun byte => Char.ofNat byte.toNat

/-- UTF-8 if the bytes are that, else one character for each byte. -/
def ofBytes (bytes : Bytes) : List Char :=
  (ofUtf8? bytes).getD (ofLatin1 bytes)

end Text

end PhotoTags
