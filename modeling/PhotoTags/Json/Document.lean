import PhotoTags.Text.Numeral

/-!
JSON texts with line breaks: each item of an array and each member of an object has a line of its
own, two spaces deeper than the line that opens the array or object.
-/

namespace PhotoTags.Json

inductive Document
  | literal (text : List Char)
  | string (text : String)
  | array (items : List Document)
  | object (members : List (String × Document))

def stringChar (c : Char) : List Char :=
  if c = '\x22' then ['\\', '\x22']
  else if c = '\\' then ['\\', '\\']
  else if c = '\x08' then ['\\', 'b']
  else if c = '\x0c' then ['\\', 'f']
  else if c = '\n' then ['\\', 'n']
  else if c = '\r' then ['\\', 'r']
  else if c = '\t' then ['\\', 't']
  else if c.toNat < 0x20 then
    ['\\', 'u'] ++ Text.padStart 4 '0' (Text.hexadecimal c.toNat)
  else [c]

def stringText (text : String) : List Char :=
  '\x22' :: text.toList.flatMap stringChar ++ ['\x22']

def lineBreak (depth : Nat) : List Char :=
  '\n' :: List.replicate (2 * depth) ' '

def bracketed (opening closing : Char) (depth : Nat) (texts : List (List Char)) : List Char :=
  if texts.isEmpty then [opening, closing]
  else
    opening :: lineBreak (depth + 1) ++ (',' :: lineBreak (depth + 1)).intercalate texts ++
      lineBreak depth ++ [closing]

namespace Document

mutual

def textAt (depth : Nat) : Document → List Char
  | .literal text => text
  | .string text => stringText text
  | .array items => bracketed '[' ']' depth (itemTexts (depth + 1) items)
  | .object members => bracketed '\x7b' '\x7d' depth (memberTexts (depth + 1) members)

def itemTexts (depth : Nat) : List Document → List (List Char)
  | [] => []
  | item :: rest => textAt depth item :: itemTexts depth rest

def memberTexts (depth : Nat) : List (String × Document) → List (List Char)
  | [] => []
  | (name, value) :: rest =>
      (stringText name ++ ':' :: ' ' :: textAt depth value) :: memberTexts depth rest

end

def text (document : Document) : String :=
  String.ofList (document.textAt 0)

def null : Document := .literal ['n', 'u', 'l', 'l']

def bool (value : Bool) : Document :=
  .literal (if value then "true".toList else "false".toList)

def number (value : Int) : Document :=
  .literal (Text.signedDecimal value)

end Document

end PhotoTags.Json
