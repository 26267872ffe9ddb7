import TapeLang.Command.Record
import TapeLang.Command.Value
import TapeLang.Tape

namespace TapeLang.Command

inductive FlagType where
  | text
  | boolean
  | integer
  | list
deriving DecidableEq, Repr

/-- A flag is given as `--name value`, `--name=value`, or by its letter. -/
structure Flag where
  name : Text
  letter : Option UInt8 := none
  type : FlagType
  usage : Text
  /-- The value without the flag, where it is not empty, zero or false. -/
  standard : Option Value := none

namespace Flag

def all : List Flag :=
  [ { name := text "code", letter := some 0x63, type := .text
      usage := text "Program source to run instead of a file" },
    { name := text "config", type := .text
      usage := text "Config file (default is $HOME/.bfjit.yaml)" },
    { name := text "disable-pass", type := .list
      usage := text "Optimization pass to disable: coalesce, zero-idiom or offset-fold" },
    { name := text "dump", type := .text
      usage := text "Print the optimized program instead of running it: ir or asm" },
    { name := text "eof", type := .text
      usage := text "Value stored at end of input: zero, unchanged or max"
      standard := some (.text (text "zero")) },
    { name := text "fallback", type := .boolean
      usage := text "Use the interpreter when native code is unsupported on this host" },
    { name := text "help", letter := some 0x68, type := .boolean
      usage := text "help for bfjit" },
    { name := text "log-level", type := .text
      usage := text "Log level: debug, info, warn, error or disabled"
      standard := some (.text (text "warn")) },
    { name := text "no-bounds-check", type := .boolean
      usage := text "Do not trap on accesses outside the tape (native code only)" },
    { name := text "no-color", type := .boolean
      usage := text "Disable colored output" },
    { name := text "no-jit", type := .boolean
      usage := text "Run on the interpreter instead of native code" },
    { name := text "stats", type := .boolean
      usage := text "Print compile and run statistics as JSON to stderr" },
    { name := text "tape-size", type := .integer
      usage := text "Number of tape cells"
      standard := some (.integer Tape.defaultSize) },
    { name := text "version", letter := some 0x76, type := .boolean
      usage := text "version for bfjit" } ]

def named? (name : Text) : Option Flag := all.find? fun f => f.name == name

def lettered? (b : UInt8) : Option Flag := all.find? fun f => f.letter == some b

/-- The flag as it is called in a message. -/
def title (f : Flag) : Text :=
  match f.letter with
  | some b => text "-" ++ [b] ++ text ", --" ++ f.name
  | none => text "--" ++ f.name

def invalid (f : Flag) (value reason : Text) : Text :=
  text "invalid argument " ++ value.quote ++ text " for " ++ f.title.quote ++ text " flag: " ++
    reason

/-- Reads a value; a list adds to the items given `before`. -/
def read (f : Flag) (before : Option Value) (value : Text) : Except Text Value :=
  match f.type with
  | .text => .ok (.text value)
  | .boolean =>
    match Text.readBool? value with
    | some b => .ok (.boolean b)
    | none => .error (f.invalid value (Text.numberMessage "ParseBool" value .malformed))
  | .integer =>
    match Text.readInteger value with
    | .ok n => .ok (.integer n)
    | .error e => .error (f.invalid value (Text.numberMessage "ParseInt" value e))
  | .list =>
    match Record.read value with
    | .ok items => .ok (.list ((before.map Value.toList).getD [] ++ items))
    | .error e => .error (f.invalid value e.message)

end Flag

/-- What the arguments read so far have given. -/
structure Arguments where
  given : List (Text × Value) := []
  positional : List Text := []
  /-- A flag that waits for its value, and the complaint if none comes. -/
  awaiting : Option (Flag × Text) := none
  /-- Everything from here on is an argument. -/
  ended : Bool := false

namespace Arguments

def value? (a : Arguments) (name : Text) : Option Value := a.given.lookup name

def set (a : Arguments) (f : Flag) (value : Text) : Except Text Arguments :=
  match f.read (a.value? f.name) value with
  | .ok v => .ok { a with given := (f.name, v) :: a.given, awaiting := none }
  | .error e => .error e

/-- A letter between single quotes, escaped where it is not printable. -/
def quoteLetter (b : UInt8) : Text :=
  let c := Char.ofNat b.toNat
  text "'" ++
    (if b == 0x27 then text "\\'" else if b == 0x22 then [b] else Text.quoteChar c) ++ text "'"

/-- Flags given by their letters, one after the other; the rest of the group may be a value. A rest
that starts with `test.` is passed over. -/
def readLetters (a : Arguments) : Text → Except Text Arguments
  | [] => .ok a
  | b :: more =>
    if (text "test.").isPrefixOf (b :: more) then .ok a else
    match Flag.lettered? b with
    | none =>
      .error (text "unknown shorthand flag: " ++ quoteLetter b ++ text " in -" ++ b :: more)
    | some f =>
      if more.length > 1 && more.head? == some 0x3D then a.set f more.tail
      else if f.type == .boolean then
        match a.set f (text "true") with
        | .ok a => a.readLetters more
        | .error e => .error e
      else if !more.isEmpty then a.set f more
      else
        let complaint := text "flag needs an argument: " ++ quoteLetter b ++ text " in -" ++ [b]
        .ok { a with awaiting := some (f, complaint) }

/-- A flag given by its name, with or without a value after an equals sign. -/
def readNamed (a : Arguments) (argument name : Text) : Except Text Arguments :=
  if name.head? == some 0x2D || name.head? == some 0x3D then
    .error (text "bad flag syntax: " ++ argument)
  else
    let (name, value) := Text.cut 0x3D name
    match Flag.named? name with
    | none => .error (text "unknown flag: --" ++ name)
    | some f =>
      match value with
      | some v => a.set f v
      | none =>
        if f.type == .boolean then a.set f (text "true")
        else .ok { a with awaiting := some (f, text "flag needs an argument: " ++ argument) }

def addPositional (a : Arguments) (argument : Text) : Arguments :=
  { a with positional := a.positional ++ [argument] }

def readOne (a : Arguments) (argument : Text) : Except Text Arguments :=
  if a.ended then .ok (a.addPositional argument) else
  match a.awaiting with
  | some (f, _) => a.set f argument
  | none =>
    match argument with
    | 0x2D :: 0x2D :: [] => .ok { a with ended := true }
    | 0x2D :: 0x2D :: name => a.readNamed argument name
    | 0x2D :: b :: more => a.readLetters (b :: more)
    | _ => .ok (a.addPositional argument)

def readAll (a : Arguments) : List Text → Except Text Arguments
  | [] =>
    match a.awaiting with
    | some (_, complaint) => .error complaint
    | none => .ok a
  | argument :: rest =>
    match a.readOne argument with
    | .ok a => a.readAll rest
    | .error e => .error e

def read (arguments : List Text) : Except Text Arguments := readAll {} arguments

def has (a : Arguments) (name : String) : Bool :=
  ((a.value? (text name)).map Value.toBool).getD false

end Arguments

end TapeLang.Command
