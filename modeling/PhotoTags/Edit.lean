import PhotoTags.Exchange.Encode
import PhotoTags.Text.Quoted

/-!
Edits: attributes to be set. On a command line an edit is a name, an equals sign and the value.
-/

namespace PhotoTags

abbrev Edit := Entry

inductive EditError
  | noEquals (text : String)
  | emptyName (text : String)
  deriving DecidableEq, Repr

def EditError.message : EditError → String
  | noEquals text => "Expected TAG=VALUE, got " ++ Text.quote text
  | emptyName text => "Empty tag name in " ++ Text.quote text

/-- The edit that a text states. The value may be empty and may hold further equals signs. -/
def parseEdit (text : String) : Except EditError Edit :=
  match Text.cutAt '=' text.toList with
  | none => .error (.noEquals text)
  | some (name, value) =>
      if name = [] then .error (.emptyName text)
      else .ok (String.ofList name, String.ofList value)

end PhotoTags
