import TapeLang.Failure

namespace TapeLang

/-- The instructions of a source in order, with every bracket linked to its partner. -/
structure Program where
  source : Source
  instructions : Array Instruction
deriving DecidableEq, Repr

namespace Program

/-- The instructions read so far and the indices of the open brackets, the innermost first. -/
structure Scan where
  done : Array Instruction := #[]
  pending : List Nat := []

/-- A bracket that has no partner. -/
structure Unmatched where
  kind : Kind
  offset : Nat
deriving DecidableEq, Repr

namespace Scan

def close (s : Scan) (opened : Nat) (rest : List Nat) (offset : Nat) : Scan :=
  let index := s.done.size
  let linked := s.done.modify opened fun i => { i with partner := some index }
  { done := linked.push ⟨.loopClose, offset, some opened⟩
    pending := rest }

def read (s : Scan) (offset : Nat) (b : UInt8) : Except Unmatched Scan :=
  match Kind.ofByte b with
  | .other _ => .ok s
  | .loopOpen =>
    let index := s.done.size
    .ok { done := s.done.push ⟨.loopOpen, offset, none⟩, pending := index :: s.pending }
  | .loopClose =>
    match s.pending with
    | [] => .error ⟨.loopClose, offset⟩
    | opened :: rest => .ok (s.close opened rest offset)
  | kind => .ok { s with done := s.done.push ⟨kind, offset, none⟩ }

/-- Reads the bytes from `offset` on and stops at the first bracket that closes nothing. -/
def readAll (s : Scan) (offset : Nat) : Text → Except Unmatched Scan
  | [] => .ok s
  | b :: t =>
    match s.read offset b with
    | .ok s => s.readAll (offset + 1) t
    | .error e => .error e

/-- The instructions, if no bracket is left open; else the innermost open one is at fault. -/
def finish (s : Scan) : Except Unmatched (Array Instruction) :=
  match s.pending with
  | [] => .ok s.done
  | opened :: _ =>
    match s.done[opened]? with
    | some i => .error ⟨i.kind, i.offset⟩
    | none => .ok s.done

end Scan

def scan (bytes : Text) : Except Unmatched (Array Instruction) :=
  match Scan.readAll {} 0 bytes with
  | .ok s => s.finish
  | .error e => .error e

def Unmatched.toError (u : Unmatched) (source : Source) : ParseError :=
  let position := source.position (Int64.ofNat u.offset)
  { bracket := u.kind, position, sourceLine := source.line position.line }

def parse (source : Source) : Except ParseError Program :=
  match scan source.bytes with
  | .ok instructions => .ok { source, instructions }
  | .error u => .error (u.toError source)

end Program

end TapeLang
