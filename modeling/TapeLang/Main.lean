import Std.Time
import TapeLang.Command

namespace TapeLang.Main

open Command

def fileFault : IO.Error → FileFault
  | .inappropriateType _ code _ => if code = 21 then .isDirectory else .notDirectory
  | .permissionDenied _ _ _ => .denied
  | .invalidArgument _ code _ => if code = 36 then .tooLong else .invalid
  | _ => .missing

def textOf (s : String) : Text := s.toUTF8.toList

def readPath (path : Text) : IO (Text × Except FileFault Text) := do
  match path.toString? with
  | none => return (path, .error .missing)
  | some name =>
    try
      return (path, .ok (← IO.FS.readBinFile name).toList)
    catch e =>
      return (path, .error (fileFault e))

def variableNames : List Text := Flag.all.flatMap fun f => Settings.variableNames f.name

def readVariable (name : Text) : IO (Text × Text) := do
  let value ← IO.getEnv ((name.toString?).getD "")
  return (name, textOf (value.getD ""))

def clock : IO Text := do
  let now ← Std.Time.PlainDateTime.now
  return Log.Event.clock now.hour.val.toNat now.minute.val.toNat

partial def readAll (stream : IO.FS.Stream) (got : ByteArray) : IO ByteArray := do
  let chunk ← stream.read 65536
  if chunk.isEmpty then return got else readAll stream (got ++ chunk)

/-- What the command finds around it; the input is read only if a program asks for it. -/
def host (arguments : List Text) : IO Host := do
  let settings ← variableNames.mapM readVariable
  let output ← IO.getStdout
  let errors ← IO.getStderr
  let bare : Host :=
    { environment := fun name => settings.lookup name
      home := (← IO.getEnv "HOME").map textOf
      clock := ← clock
      outputColor := ← output.isTty
      errorColor := ← errors.isTty }
  let files ← (paths bare arguments).mapM readPath
  let h := { bare with contents := fun path => (files.lookup path).getD (.error .missing) }
  if readsInput h arguments then
    return { h with input := .ofBytes (← readAll (← IO.getStdin) .empty).toList }
  else return h

/-- More rounds of a loop than anyone can wait for. -/
def fuel : Nat := Nat.pow 2 62

end TapeLang.Main

/-- Collects what the command may look at, runs it, and writes what it left. -/
def main (arguments : List String) : IO UInt32 := do
  let arguments := arguments.map TapeLang.Main.textOf
  match TapeLang.Command.execute TapeLang.Main.fuel (← TapeLang.Main.host arguments) arguments with
  | none => return 1
  | some outcome =>
    (← IO.getStdout).write ⟨outcome.output.received⟩
    (← IO.getStderr).write ⟨outcome.errors.received⟩
    return outcome.status.toUInt32
