import TapeLang.Text

namespace TapeLang

/-- Why a stream failed. -/
inductive Fault where
  | reported (message : Text)
  | shortWrite
  | noProgress
deriving DecidableEq, Repr

def Fault.message : Fault → Text
  | reported m => m
  | shortWrite => text "short write"
  | noProgress => text "multiple Read calls return no data or error"

/-- What a call reports besides its bytes. -/
inductive ReadEnd where
  | atEnd
  | failed (f : Fault)
deriving DecidableEq, Repr

inductive ReadStep where
  /-- Bytes, and what comes with the last of them. -/
  | deliver (bytes : Text) (after : Option ReadEnd)
  | crash (reason : Text)
deriving DecidableEq, Repr

/-- A reader on a stream whose `i`-th step is `script i`. -/
structure Reader where
  script : Nat → ReadStep
  /-- The step that the next call takes. -/
  next : Nat := 0
  /-- What earlier calls left of that step's bytes. -/
  left : Option Text := none
  /-- Bytes read and not yet handed out. -/
  buffer : Text := []
  held : Option ReadEnd := none

/-- The outcome of asking a reader for one byte. -/
inductive ReadResult where
  | byte (b : UInt8) (r : Reader)
  | ended (e : ReadEnd) (r : Reader)
  | crash (reason : Text) (r : Reader)

namespace Reader

def capacity : Nat := 4096

/-- A stream that follows the steps and is then at its end. -/
def ofSteps (steps : Array ReadStep) : Reader :=
  { script := fun i => steps.getD i (.deliver [] (some .atEnd)) }

def ofBytes (bytes : Text) : Reader := ofSteps #[.deliver bytes none]

def empty : Reader := ofSteps #[]

/-- Calls the stream for at most a buffer of bytes. The first component is what the call
reports, or the reason of a crash, which leaves the step in place. -/
def call (r : Reader) : Except Text (Option ReadEnd × Reader) :=
  match r.script r.next with
  | .crash reason => .error reason
  | .deliver bytes after =>
    let bytes := r.left.getD bytes
    match bytes.drop capacity with
    | [] => .ok (after, { r with next := r.next + 1, left := none, buffer := bytes })
    | rest => .ok (none, { r with left := some rest, buffer := bytes.take capacity })

/-- Calls the stream until it gives a byte, an end or a fault, but no more than `n` times. -/
def fill : Nat → Reader → Except (Text × Reader) Reader
  | 0, r => .ok { r with held := some (.failed .noProgress) }
  | n + 1, r =>
    match r.call with
    | .error reason => .error (reason, r)
    | .ok (some e, r) => .ok { r with held := some e }
    | .ok (none, r) => if r.buffer.isEmpty then fill n r else .ok r

def attempts : Nat := 100

/-- Hands out a buffered byte, else what is held back, which is then forgotten. -/
def take (r : Reader) : ReadResult :=
  match r.buffer with
  | b :: rest => .byte b { r with buffer := rest }
  | [] => .ended (r.held.getD .atEnd) { r with held := none }

/-- Hands out one byte, or what the stream reported behind the last one. Reading may go on after an
end. -/
def readByte (r : Reader) : ReadResult :=
  if r.buffer.isEmpty && r.held.isNone then
    match r.fill attempts with
    | .ok r => r.take
    | .error (reason, r) => .crash reason r
  else r.take

end Reader

end TapeLang
