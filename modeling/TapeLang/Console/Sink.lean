import TapeLang.Console.Reader

namespace TapeLang

/-- The answer to a write: how much of it was stored, and a fault if one is reported. -/
structure Grant where
  stored : Nat
  fault : Option Fault := none

/-- Where output goes. A sink stores a first part of each write and may report a fault, but it
answers every write: unlike a stream that is read, it does not break down. -/
structure Sink where
  received : Array UInt8 := #[]
  /-- The sizes of all writes so far. -/
  writes : Array Nat := #[]
  /-- Answers a write from the bytes held, the number of writes before and the size of this one. -/
  rule : Nat → Nat → Nat → Grant := fun _ _ size => { stored := size }

namespace Sink

/-- A sink with room for `limit` bytes. A write beyond it stores what fits and reports `fault`. -/
def limited (limit : Nat) (fault : Option Fault) : Sink :=
  { rule := fun held _ size =>
      if held + size > limit then { stored := limit - held, fault } else { stored := size } }

/-- Writes a chunk and tells how much of it was stored, never more than there is. -/
def write (s : Sink) (chunk : Array UInt8) : Sink × Grant :=
  let g := s.rule s.received.size s.writes.size chunk.size
  let stored := min g.stored chunk.size
  ({ s with
      received := s.received ++ chunk.extract 0 stored
      writes := s.writes.push chunk.size },
    { g with stored })

def writeText (s : Sink) (t : Text) : Sink × Grant := s.write t.toArray

/-- Writes the texts one by one and stops at the first fault. -/
def writeEach (s : Sink) : List Text → Sink × Option Fault
  | [] => (s, none)
  | t :: rest =>
    match s.writeText t with
    | (s, ⟨_, none⟩) => s.writeEach rest
    | (s, ⟨_, some f⟩) => (s, some f)

end Sink

end TapeLang
