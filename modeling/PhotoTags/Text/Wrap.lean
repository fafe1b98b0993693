import PhotoTags.Text.Cut

/-!
Breaking a text into lines at its blanks. A line takes as many words as fit, counted in bytes; a
word that is too long has a line of its own.
-/

namespace PhotoTags.Text

/-- The lines of some words, where `line` is the line begun so far. -/
def fillLines (width : Nat) : List Char → List (List Char) → List (List Char)
  | line, [] => [line]
  | line, word :: rest =>
      if byteLength line + 1 + byteLength word ≤ width then
        fillLines width (line ++ ' ' :: word) rest
      else line :: fillLines width word rest

/-- The lines of a text. A text without words is one line as it stands. -/
def wrap (width : Nat) (text : List Char) : List (List Char) :=
  match words text with
  | [] => [text]
  | word :: rest => fillLines width word rest

end PhotoTags.Text
