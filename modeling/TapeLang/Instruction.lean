import TapeLang.Text

namespace TapeLang

/-- A code outside the eight is `other`; the kind of a comment byte is `other 0`. -/
inductive Kind where
  | moveLeft
  | moveRight
  | increment
  | decrement
  | loopOpen
  | loopClose
  | output
  | input
  | other (code : UInt8)
deriving DecidableEq, Repr

namespace Kind

def ofByte (b : UInt8) : Kind :=
  if b = 0x3C then moveLeft
  else if b = 0x3E then moveRight
  else if b = 0x2B then increment
  else if b = 0x2D then decrement
  else if b = 0x5B then loopOpen
  else if b = 0x5D then loopClose
  else if b = 0x2E then output
  else if b = 0x2C then input
  else other 0

/-- The byte that stands for the kind in a source, and zero for none. -/
def byte : Kind → UInt8
  | moveLeft => 0x3C
  | moveRight => 0x3E
  | increment => 0x2B
  | decrement => 0x2D
  | loopOpen => 0x5B
  | loopClose => 0x5D
  | output => 0x2E
  | input => 0x2C
  | other _ => 0

def code : Kind → UInt8
  | moveLeft => 1
  | moveRight => 2
  | increment => 3
  | decrement => 4
  | loopOpen => 5
  | loopClose => 6
  | output => 7
  | input => 8
  | other c => c

def ofCode (c : UInt8) : Kind :=
  if c = 1 then moveLeft
  else if c = 2 then moveRight
  else if c = 3 then increment
  else if c = 4 then decrement
  else if c = 5 then loopOpen
  else if c = 6 then loopClose
  else if c = 7 then output
  else if c = 8 then input
  else other c

def name : Kind → Text
  | moveLeft => text "MOVE_LEFT"
  | moveRight => text "MOVE_RIGHT"
  | increment => text "INCREMENT"
  | decrement => text "DECREMENT"
  | loopOpen => text "LOOP_OPEN"
  | loopClose => text "LOOP_CLOSE"
  | output => text "OUTPUT"
  | input => text "INPUT"
  | other c =>
    if c = 0 then text "INVALID" else text "Kind(" ++ Text.decimal c.toNat ++ text ")"

def isLoop : Kind → Bool
  | loopOpen => true
  | loopClose => true
  | _ => false

/-- The byte belongs to a program; all others are comments. -/
def isInstruction : Kind → Bool
  | other _ => false
  | _ => true

end Kind

/-- An instruction at its byte offset; a bracket also names the index of its partner. -/
structure Instruction where
  kind : Kind
  offset : Nat
  partner : Option Nat := none
deriving DecidableEq, Repr

namespace Instruction

/-- The short form: `+@3`, or `[@0->4` for a bracket. -/
def label (kind : Kind) (offset partner : Int) : Text :=
  kind.byte :: text "@" ++ Text.integer offset ++
    (if kind.isLoop then text "->" ++ Text.integer partner else [])

def toText (i : Instruction) : Text :=
  label i.kind i.offset (match i.partner with | some j => j | none => -1)

end Instruction

end TapeLang
