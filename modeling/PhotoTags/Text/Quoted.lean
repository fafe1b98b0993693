import PhotoTags.Text.Hidden
import PhotoTags.Text.Numeral

/-!
Quoted texts, as messages show them: between double quotes, with every character visible.
-/

namespace PhotoTags.Text

def quotedChar (c : Char) : List Char :=
  if c = '"' then ['\\', '"']
  else if c = '\\' then ['\\', '\\']
  else if c = '\t' then ['\\', 't']
  else if c = '\r' then ['\\', 'r']
  else if c = '\n' then ['\\', 'n']
  else if c.toNat = 0 then ['\\', '0']
  else if isHidden c then ['\\', 'u', '\x7b'] ++ hexadecimal c.toNat ++ ['\x7d']
  else [c]

/-- The text between double quotes. A quote and a backslash get a backslash, tab, return, line feed
and NUL their letters, and any other hidden character its code point in hexadecimal. -/
def quoted (text : List Char) : List Char :=
  '"' :: text.flatMap quotedChar ++ ['"']

def quote (text : String) : String :=
  String.ofList (quoted text.toList)

end PhotoTags.Text
