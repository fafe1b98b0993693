import PhotoTags.Decimal.Reading

/-!
Positions on the globe: degrees, minutes and seconds written as three quotients, and the same as
decimal degrees. South and west are negative.
-/

namespace PhotoTags

structure Position where
  latitude : Float
  longitude : Float

namespace Position

/-- The value of `numerator/denominator`, where blanks around the two numbers do not count. There
is none if it is not finite. -/
def quotient? (text : List Char) : Option Float :=
  match Text.cutAt '/' text with
  | none => none
  | some (numerator, denominator) =>
      match Decimal.float? (Text.trim numerator), Decimal.float? (Text.trim denominator) with
      | some numerator, some denominator =>
          let value := numerator / denominator
          if value.isFinite then some value else none
      | _, _ => none

/-- The degrees of three quotients between commas; what follows a third comma does not count. -/
def sexagesimal? (text : List Char) : Option Float :=
  match Text.fields ',' text with
  | degrees :: minutes :: seconds :: _ =>
      match quotient? degrees, quotient? minutes, quotient? seconds with
      | some degrees, some minutes, some seconds =>
          some (degrees + minutes / 60 + seconds / 3600)
      | _, _, _ => none
  | _ => none

/-- Decimal degrees from a coordinate and its reference, zero if the coordinate cannot be read. -/
def degrees (value reference : String) : Float :=
  match sexagesimal? value.toList with
  | none => 0
  | some degrees => if reference = "S" ∨ reference = "W" then -degrees else degrees

end Position

end PhotoTags
