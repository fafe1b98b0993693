import PhotoTags.Tag.Table
import PhotoTags.Text.Numeral
import PhotoTags.Tiff.Value

/-!
Values of tags from their texts. Numbers stand between commas, and blanks around them do not count.
-/

namespace PhotoTags.Tag

def parts? {α : Type} (read? : List Char → Option α) (text : List Char) : Option (List α) :=
  (Text.fields ',' text).mapM fun part => read? (Text.trim part)

def quotient? (text : List Char) : Option (Nat × Nat) :=
  match Text.cutAt '/' text with
  | none => none
  | some (numerator, denominator) =>
      match Text.unsigned? Text.bound32 (Text.trim numerator),
          Text.unsigned? Text.bound32 (Text.trim denominator) with
      | some numerator, some denominator => some (numerator, denominator)
      | _, _ => none

def Format.value? (format : Format) (text : String) : Option Tiff.Value :=
  match format with
  | .text => some (.text text.toList)
  | .short => (parts? (Text.unsigned? Text.bound16) text.toList).map fun numbers => ⟨.short, numbers⟩
  | .long => (parts? (Text.unsigned? Text.bound32) text.toList).map fun numbers => ⟨.long, numbers⟩
  | .rational =>
      (parts? quotient? text.toList).map fun quotients =>
        ⟨.rational, quotients.flatMap fun quotient => [quotient.1, quotient.2]⟩

end PhotoTags.Tag
