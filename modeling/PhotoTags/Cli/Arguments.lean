import PhotoTags.Edit
import PhotoTags.Files.Path
import PhotoTags.Text.Terminal

/-!
The arguments of the command line. Options have a long name, some a short one, and take their value
behind an equals sign or from the next argument. A value from the next argument is looked at only
when something else follows that is known, so that an unknown argument is reported first.
-/

namespace PhotoTags.Cli

structure Arguments where
  paths : List Path
  config : Option Path
  init : Bool
  edits : List Edit
  dryRun : Bool
  thumbnail : Option Path
  json : Bool
  verbose : Bool
  deriving DecidableEq, Repr

def Arguments.none : Arguments :=
  ⟨[], .none, false, [], false, .none, false, false⟩

inductive Flag
  | init
  | dryRun
  | json
  | verbose
  deriving DecidableEq, Repr

inductive ValueOption
  | config
  | edit
  | thumbnail
  deriving DecidableEq, Repr

inductive Named
  | flag (flag : Flag)
  | value (option : ValueOption)
  | version
  | help
  deriving DecidableEq, Repr

inductive Once
  | flag (flag : Flag)
  | value (option : ValueOption)
  deriving DecidableEq, Repr

def Flag.name : Flag → String
  | init => "--init"
  | dryRun => "--dry-run"
  | json => "--json"
  | verbose => "--verbose"

def ValueOption.name : ValueOption → String
  | config => "--config <FILE>"
  | edit => "--set <TAG=VALUE>"
  | thumbnail => "--thumbnail <FILE>"

def Once.name : Once → String
  | flag given => given.name
  | value given => given.name

def pathsName : String := "[PATH]..."

inductive ArgumentError
  | unexpected (argument : String)
  | unneeded (value name : String)
  | missing (name : String)
  | invalid (value : String) (cause : EditError)
  | repeated (name : String)
  deriving DecidableEq, Repr

/-- Texts that were given are named as a terminal shows them. -/
def ArgumentError.message : ArgumentError → String
  | unexpected argument => "unexpected argument '" ++ Text.onTerminal argument ++ "' found"
  | unneeded value name =>
      "unexpected value '" ++ Text.onTerminal value ++ "' for '" ++ name ++
        "' found; no more were expected"
  | missing name => "a value is required for '" ++ name ++ "' but none was supplied"
  | invalid value cause =>
      "invalid value '" ++ Text.onTerminal value ++ "' for '" ++ ValueOption.edit.name ++ "': " ++
        cause.message
  | repeated name => "the argument '" ++ name ++ "' cannot be used multiple times"

inductive Stop
  | error (cause : ArgumentError)
  | version
  | help
  deriving DecidableEq, Repr

/-- What was given and not yet looked at: an option, perhaps with its value, or paths. -/
inductive Pending
  | nothing
  | option (option : ValueOption) (value : Option String)
  | paths (texts : List String)
  deriving DecidableEq, Repr

structure State where
  arguments : Arguments
  seen : List Once
  pending : Pending
  onlyPaths : Bool
  deriving DecidableEq, Repr

def longNames : List (String × Named) :=
  [("config", .value .config), ("init", .flag .init), ("set", .value .edit),
    ("dry-run", .flag .dryRun), ("thumbnail", .value .thumbnail), ("json", .flag .json),
    ("verbose", .flag .verbose), ("version", .version), ("help", .help)]

def shortNames : List (Char × Named) :=
  [('c', .value .config), ('v', .flag .verbose), ('V', .version), ('h', .help)]

def fail {α : Type} (cause : ArgumentError) : Except Stop α :=
  .error (.error cause)

def path? (name text : String) : Except Stop Path :=
  if text = "" then fail (.missing name) else .ok ⟨text⟩

namespace State

def start : State := ⟨.none, [], .nothing, false⟩

def note (state : State) (once : Once) : Except Stop State :=
  if state.seen.contains once then fail (.repeated once.name)
  else .ok { state with seen := once :: state.seen }

def give (state : State) (option : ValueOption) (value : String) : Except Stop State :=
  match option with
  | .edit =>
      match parseEdit value with
      | .error cause => fail (.invalid value cause)
      | .ok edit =>
          .ok { state with
            arguments := { state.arguments with edits := state.arguments.edits ++ [edit] } }
  | .config => do
      let state ← state.note (.value .config)
      let path ← path? ValueOption.config.name value
      .ok { state with arguments := { state.arguments with config := some path } }
  | .thumbnail => do
      let state ← state.note (.value .thumbnail)
      let path ← path? ValueOption.thumbnail.name value
      .ok { state with arguments := { state.arguments with thumbnail := some path } }

def settle (state : State) : Except Stop State :=
  let settled := { state with pending := .nothing }
  match state.pending with
  | .nothing => .ok state
  | .option option none => fail (.missing option.name)
  | .option option (some value) => settled.give option value
  | .paths texts => do
      let paths ← texts.mapM (path? pathsName)
      .ok { settled with
        arguments := { state.arguments with paths := state.arguments.paths ++ paths } }

def setFlag (arguments : Arguments) : Flag → Arguments
  | .init => { arguments with init := true }
  | .dryRun => { arguments with dryRun := true }
  | .json => { arguments with json := true }
  | .verbose => { arguments with verbose := true }

def raise (state : State) (flag : Flag) : Except Stop State := do
  let state ← state.settle
  let state ← state.note (.flag flag)
  .ok { state with arguments := setFlag state.arguments flag }

def option (state : State) (option : ValueOption) (value : Option String) :
    Except Stop State := do
  let state ← state.settle
  match value with
  | some value => state.give option value
  | none => .ok { state with pending := .option option none }

def stop (state : State) (reason : Stop) : Except Stop State := do
  let _ ← state.settle
  .error reason

def long (state : State) (name : String) (value : Option String) : Except Stop State :=
  match longNames.find? (·.1 == name), value with
  | some (_, .value option), value => state.option option value
  | some (_, .flag flag), none => state.raise flag
  | some (_, .version), none => state.stop .version
  | some (_, .help), none => state.stop .help
  | some _, some value => fail (.unneeded value ("--" ++ name))
  | none, _ => fail (.unexpected ("--" ++ name))

/-- Takes an argument of short names. What follows the name of an option is its value. -/
def short (state : State) : List Char → Except Stop State
  | [] => .ok state
  | c :: rest =>
      match shortNames.find? (·.1 == c) with
      | some (_, .flag flag) =>
          match state.raise flag with
          | .error reason => .error reason
          | .ok state => short state rest
      | some (_, .value option) =>
          state.option option (match rest with
            | [] => none
            | '=' :: value => some (String.ofList value)
            | value => some (String.ofList value))
      | some (_, .version) => state.stop .version
      | some (_, .help) => state.stop .help
      | none => fail (.unexpected (String.ofList ['-', c]))

def addPath (state : State) (text : String) : Except Stop State :=
  match state.pending with
  | .paths texts => .ok { state with pending := .paths (texts ++ [text]) }
  | _ => do
      let state ← state.settle
      .ok { state with pending := .paths [text] }

/-- Takes an argument that is no name: the value of an option that waits for one, or a path. -/
def plain (state : State) (text : String) : Except Stop State :=
  match state.pending with
  | .option option none => .ok { state with pending := .option option (some text) }
  | _ => state.addPath text

/-- Takes the next argument. Behind two dashes all arguments are paths. -/
def take (state : State) (argument : String) : Except Stop State :=
  if state.onlyPaths then state.addPath argument
  else
    match argument.toList with
    | ['-', '-'] => .ok { state with onlyPaths := true }
    | '-' :: '-' :: rest =>
        match Text.cutAt '=' rest with
        | some (name, value) => state.long (String.ofList name) (some (String.ofList value))
        | none => state.long (String.ofList rest) none
    | '-' :: c :: rest => state.short (c :: rest)
    | _ => state.plain argument

end State

def parse (arguments : List String) : Except Stop Arguments := do
  let state ← arguments.foldlM State.take State.start
  let state ← state.settle
  .ok state.arguments

end PhotoTags.Cli
