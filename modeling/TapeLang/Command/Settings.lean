import TapeLang.Command.Config
import TapeLang.Command.Directory
import TapeLang.Command.Flag
import TapeLang.Console.Sink
import TapeLang.Text.Escape

namespace TapeLang.Command

/-- What a command finds around it. -/
structure Host where
  /-- The value of a variable of the environment, if it is set. -/
  environment : Text → Option Text := fun _ => none
  /-- Where the configuration of the user is kept. -/
  home : Option Text := none
  contents : Text → Except FileFault Text := fun _ => .error .missing
  input : Reader := .empty
  output : Sink := {}
  errors : Sink := {}
  /-- The time of day, for log lines. -/
  clock : Text := []
  /-- The streams that show colours. -/
  outputColor : Bool := false
  errorColor : Bool := false
  painter : Text.Painter := .ansi

structure Settings where
  arguments : Arguments := {}
  environment : Text → Option Text := fun _ => none
  config : Config.Entries := []

namespace Settings

def upperByte (b : UInt8) : UInt8 :=
  if 0x61 ≤ b && b ≤ 0x7A then b - 0x20 else if b == 0x2D then 0x5F else b

/-- The variable that holds a setting: `tape-size` is in `BFJIT_TAPE_SIZE`. -/
def variableName (name : Text) : Text := text "BFJIT_" ++ name.map upperByte

/-- The variables of a setting in the order in which they count. -/
def variableNames (name : Text) : List Text :=
  if name == text "no-color" then [variableName name, text "NO_COLOR"] else [variableName name]

/-- A variable that is empty counts as not set. -/
def fromVariable? (s : Settings) (name : Text) : Option Value :=
  (variableNames name).findSome? fun v =>
    match s.environment v with
    | some t => if t.isEmpty then none else some (.text t)
    | none => none

/-- A list goes through its written form. -/
def fromFlag? (s : Settings) (name : Text) : Option Value :=
  match s.arguments.value? name with
  | some (.list items) => some (.list (Record.settle items))
  | v => v

def standard? (name : Text) : Option Value := (Flag.named? name).bind Flag.standard

/-- Settings come in layers: a flag on the command line, else a variable of the environment, else
the configuration file, else the flag's standard value. -/
def value? (s : Settings) (name : Text) : Option Value :=
  s.fromFlag? name <|> s.fromVariable? name <|> Config.value? s.config name <|> standard? name

def getText (s : Settings) (name : String) : Text :=
  ((s.value? (text name)).map Value.toText).getD []

def getBool (s : Settings) (name : String) : Bool :=
  ((s.value? (text name)).map Value.toBool).getD false

def getInt64 (s : Settings) (name : String) : Int64 :=
  ((s.value? (text name)).map Value.toInt64).getD 0

def getList (s : Settings) (name : String) : List Text :=
  ((s.value? (text name)).map Value.toList).getD []

/-- The names that end a configuration file; a file under another name is refused. -/
def extensions : List Text :=
  ["json", "toml", "yaml", "yml", "properties", "props", "prop", "hcl", "tfvars", "dotenv", "env",
    "ini"].map text

/-- The names of the files that this library reads. -/
def readable : List Text := ["yaml", "yml"].map text

/-- What follows the last point in the last part of a path. -/
def extension (path : Text) : Text :=
  let last := path.reverse.takeWhile (· != Directory.slash)
  if last.contains 0x2E then (last.takeWhile (· != 0x2E)).reverse else []

def parseConfig (t : Text) : Except Text Config.Entries :=
  match Config.read t with
  | .ok entries => .ok entries
  | .error e => .error (text "While parsing config: " ++ e.message)

/-- Reads a file that the user names. -/
def readNamed (h : Host) (path : Text) : Except Text Config.Entries :=
  let ending := extension path
  if !extensions.contains ending then .error (text "Unsupported Config Type " ++ ending.quote)
  else
    match h.contents path with
    | .error e => .error (e.message path)
    | .ok t =>
      if readable.contains ending then parseConfig t
      else .error (text "While parsing config: decoder not found for this format")

/-- The files in the home that may hold a configuration, the first one that exists counts. -/
def homeFiles (home : Text) : List Text :=
  let base := home ++ text "/.bfjit"
  extensions.map (fun e => base ++ text "." ++ e) ++ [base]

def readHome (h : Host) : Except Text Config.Entries :=
  match h.home with
  | none => .ok []
  | some home =>
    let files := (homeFiles home).filterMap fun path => (h.contents path).toOption
    match files with
    | t :: _ => parseConfig t
    | [] => .ok []

/-- The layers for given arguments, or what is wrong with the configuration. -/
def load (h : Host) (a : Arguments) : Except Text Settings :=
  let s : Settings := { arguments := a, environment := h.environment }
  let path := s.getText "config"
  if path.isEmpty then
    match readHome h with
    | .ok config => .ok { s with config }
    | .error e => .error (text "reading config: " ++ e)
  else
    match readNamed h path with
    | .ok config => .ok { s with config }
    | .error e => .error (text "reading config " ++ path ++ text ": " ++ e)

/-- A stream that shows colours gets them unless the user does not want any. -/
def wantsColor (s : Settings) (color : Bool) : Bool := color && !s.getBool "no-color"

end Settings

end TapeLang.Command
