import TapeLang.Device
import TapeLang.Console.Reader
import TapeLang.Console.Sink
import TapeLang.Text.Blank
import TapeLang.Text.Letter
import TapeLang.Text.Quoted

namespace TapeLang

/-- What reading past the end of the input does to the cell. -/
inductive EndPolicy where
  | zero
  | unchanged
  | max
  /-- A number without a meaning of its own, which acts as `zero`. -/
  | other (n : Int64)
deriving DecidableEq, Repr

namespace EndPolicy

def ofNumber (n : Int64) : EndPolicy :=
  if n = 0 then zero else if n = 1 then unchanged else if n = 2 then max else other n

def number : EndPolicy → Int64
  | zero => 0
  | unchanged => 1
  | max => 2
  | other n => n

def name : EndPolicy → Text
  | zero => text "zero"
  | unchanged => text "unchanged"
  | max => text "max"
  | other n => text "EOFBehavior(" ++ Text.integer n.toInt ++ text ")"

/-- The names of each policy. -/
def spellings : List (EndPolicy × List Text) :=
  [ (zero, [text "", text "zero", text "0"]),
    (unchanged, [text "unchanged", text "keep"]),
    (max, [text "max", text "255", text "-1"]) ]

/-- Names are read without regard to case and to white space around them. -/
def ofName? (t : Text) : Option EndPolicy :=
  (spellings.find? fun (_, names) => names.contains t.trim.lower).map Prod.fst

def unknownMessage (t : Text) : Text :=
  text "unknown eof behavior " ++ t.quote ++ text " (expected zero, unchanged or max)"

end EndPolicy

/-- A program's byte streams. Output is collected and written when the buffer is full, before each
read and at the end; the first fault of either stream is kept and ends all output. -/
structure Console where
  reader : Reader := .empty
  sink : Sink := {}
  policy : EndPolicy := .zero
  /-- Output not yet written. -/
  pending : Array UInt8 := #[]
  fault : Option Fault := none
  /-- Bytes taken for output. No run gets to `2 ^ 63` of them, where a 64-bit count would wrap; the
  same holds of the bytes read. -/
  written : Nat := 0
  read : Nat := 0

namespace Console

def capacity : Nat := 4096

/-- Writes the pending output; a write that stores less than all of it is a fault. -/
def writePending (c : Console) : Console :=
  if c.pending.isEmpty then c else
  let (sink, grant) := c.sink.write c.pending
  let fault :=
    if grant.stored < c.pending.size then some (grant.fault.getD .shortWrite) else grant.fault
  { c with sink, fault, pending := c.pending.extract grant.stored c.pending.size }

/-- Writes the pending output unless a stream has failed. -/
def settle (c : Console) : Console := if c.fault.isNone then c.writePending else c

/-- Takes one byte of output, and drops it once a stream has failed. -/
def put (b : UInt8) (c : Console) : Console :=
  let c := if c.pending.size < capacity then c else c.settle
  if c.fault.isNone then { c with pending := c.pending.push b, written := c.written + 1 } else c

/-- The reply at the end of the input. -/
def endReply (c : Console) : Reply Console :=
  match c.policy with
  | .unchanged => .keep c
  | .max => .byte 255 c
  | _ => .byte 0 c

def noteFault (c : Console) (f : Fault) : Console :=
  if c.fault.isNone then { c with fault := some f } else c

/-- Reads one byte after writing the pending output. A fault is kept and then treated as the end
of the input. -/
def get (c : Console) : Reply Console :=
  let c := c.settle
  match c.reader.readByte with
  | .byte b reader => .byte b { c with reader, read := c.read + 1 }
  | .ended .atEnd reader => { c with reader }.endReply
  | .ended (.failed f) reader => ({ c with reader }.noteFault f).endReply
  | .crash reason reader => .crash reason { c with reader }

/-- Writes the pending output; the console then holds the first fault seen, if any. -/
def flush (c : Console) : Console := c.settle

instance : Device Console where
  put := put
  get := get

end Console

end TapeLang
