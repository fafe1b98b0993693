import PhotoTags.Json.Token

/-!
JSON values, read from their tokens. Values may be nested to any depth: reading keeps the arrays and
objects that are not yet closed on a stack.
-/

namespace PhotoTags

/-- A JSON value. Numbers are kept as they are written; members of an object may share a name; a
string that is no text has no content. -/
inductive Json
  | null
  | bool (value : Bool)
  | number (literal : List Char)
  | string (content : Option String)
  | array (items : List Json)
  | object (members : List (Option String × Json))

namespace Json

/-- An array or object that is not yet closed: what it holds so far, backwards, and the name of the
member that is being read. -/
inductive Frame
  | array (items : List Json)
  | object (members : List (Option String × Json)) (name : Option String)

inductive Expect
  | value
  | firstItem
  | firstName
  | name
  | colon
  | separator

/-- Values that are being read, the innermost first, and the last value that was finished. -/
structure State where
  frames : List Frame
  expect : Expect
  last : Json

def State.finish (state : State) (value : Json) : State :=
  match state.frames with
  | [] => { state with expect := .separator, last := value }
  | .array items :: frames => ⟨.array (value :: items) :: frames, .separator, value⟩
  | .object members name :: frames =>
      ⟨.object ((name, value) :: members) none :: frames, .separator, value⟩

def State.closeArray? (state : State) : Option State :=
  match state.frames with
  | .array items :: frames => some ({ state with frames }.finish (.array items.reverse))
  | _ => none

def State.closeObject? (state : State) : Option State :=
  match state.frames with
  | .object members _ :: frames => some ({ state with frames }.finish (.object members.reverse))
  | _ => none

def State.value? (state : State) (token : Token) : Option State :=
  match token with
  | .openBracket => some { state with frames := .array [] :: state.frames, expect := .firstItem }
  | .openBrace =>
      some { state with frames := .object [] none :: state.frames, expect := .firstName }
  | .word (some value) => some (state.finish (.bool value))
  | .word none => some (state.finish .null)
  | .number literal => some (state.finish (.number literal))
  | .string content => some (state.finish (.string content))
  | _ => none

def State.name? (state : State) (token : Token) : Option State :=
  match token, state.frames with
  | .string content, .object members _ :: frames =>
      some { state with frames := .object members content :: frames, expect := .colon }
  | _, _ => none

def State.comma? (state : State) : Option State :=
  match state.frames with
  | .array _ :: _ => some { state with expect := .value }
  | .object _ _ :: _ => some { state with expect := .name }
  | [] => none

def State.step? (state : State) (token : Token) : Option State :=
  match state.expect, token with
  | .value, token => state.value? token
  | .firstItem, .closeBracket => state.closeArray?
  | .firstItem, token => state.value? token
  | .firstName, .closeBrace => state.closeObject?
  | .firstName, token => state.name? token
  | .name, token => state.name? token
  | .colon, .colon => some { state with expect := .value }
  | .separator, .comma => state.comma?
  | .separator, .closeBracket => state.closeArray?
  | .separator, .closeBrace => state.closeObject?
  | _, _ => none

def ofTokens? (tokens : List Token) : Option Json :=
  match tokens.foldlM State.step? ⟨[], .value, .null⟩ with
  | some ⟨[], .separator, value⟩ => some value
  | _ => none

/-- The value of a JSON text. -/
def read? (text : List Char) : Option Json :=
  (tokens? text).bind ofTokens?

end Json

end PhotoTags
