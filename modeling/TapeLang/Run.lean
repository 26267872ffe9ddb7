import TapeLang.Machine
import TapeLang.Console

namespace TapeLang

def Stop.toFailure : Stop → Failure
  | .trap t => .trap t
  | .cancelled => .cancelled
  | .unknownStep => .internal ⟨text "interp", text "unknown node type <nil>"⟩
  | .crash reason => .internal ⟨text "interp", text "panic: " ++ reason⟩

def Fault.toFailure (f : Fault) : Failure := .plain f.message

/-- The state that a run leaves behind. -/
structure Ran where
  stop : Option Stop
  tape : Tape
  console : Console
  steps : Nat
  iterations : Nat

namespace Ran

/-- What the run reports: why it stopped, else the first fault of its streams. -/
def failure (r : Ran) : Option Failure :=
  match r.stop, r.console.fault with
  | some s, _ => some s.toFailure
  | none, some f => some (.within (text "output") (some f.toFailure))
  | none, none => none

def ofMachine (stop : Option Stop) (m : Machine Console) : Ran :=
  { stop
    tape := { cells := m.cells, pointer := m.pointer }
    console := m.device.flush
    steps := m.steps
    iterations := m.iterations }

end Ran

namespace Block

/-- Runs a block on a tape; none if some loop needs more than `fuel` tests. -/
def runWith (fuel : Nat) (w : Watch) (b : Block) (tape : Tape) (console : Console) : Option Ran :=
  let start : Machine Console :=
    { cells := tape.cells, pointer := tape.pointer, device := console }
  match Machine.exec w fuel b start with
  | .done m => some (.ofMachine none m)
  | .stopped why m => some (.ofMachine (some why) m)
  | .outOfFuel => none

end Block

end TapeLang
