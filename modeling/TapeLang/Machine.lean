import TapeLang.Block
import TapeLang.Device
import TapeLang.Failure
import TapeLang.Tape

namespace TapeLang

/-- Why a run ended before the end of its block. -/
inductive Stop where
  | trap (t : Trap)
  | cancelled
  | unknownStep
  | crash (reason : Text)
deriving DecidableEq, Repr

inductive Outcome (σ : Type) where
  | done (state : σ)
  | stopped (why : Stop) (state : σ)
  | outOfFuel

/-- When a run looks for cancellation and what it sees. -/
structure Watch where
  /-- Loop bodies between two looks; zero stands for the default and below zero there are none. -/
  interval : Int64 := 0
  /-- The first look that sees cancellation. -/
  cancelAt : Option Nat := none
  /-- Cancelled before the run began. -/
  raised : Bool := false

namespace Watch

def defaultInterval : Int64 := 1000

def period (w : Watch) : Int64 := if w.interval = 0 then defaultInterval else w.interval

/-- A run that enters loop body number `iteration` is cancelled there. -/
def stops (w : Watch) (iteration : Nat) : Bool :=
  w.raised ||
    match w.cancelAt with
    | none => false
    | some n =>
      w.period > 0 && iteration % w.period.toNatClampNeg == 0 &&
        n ≤ iteration / w.period.toNatClampNeg

/-- Never cancelled. -/
def never : Watch := {}

end Watch

structure Machine (δ : Type) where
  cells : Array UInt8
  pointer : Int64
  device : δ
  /-- Steps and loops performed, a loop once each time it is reached. Like the bodies entered, they
  stay below `2 ^ 63`, where a 64-bit count would wrap. -/
  steps : Nat := 0
  /-- Loop bodies entered. -/
  iterations : Nat := 0

namespace Machine

variable {δ : Type}

/-- The index of the cell at an offset from the pointer. -/
def locate (m : Machine δ) (offset : Int64) : Except Trap (Fin m.cells.size) :=
  let address := m.pointer + offset
  if h : 0 ≤ address ∧ address.toNatClampNeg < m.cells.size then
    .ok ⟨address.toNatClampNeg, h.2⟩
  else .error { address, tapeSize := Int64.ofNat m.cells.size }

def setCell (m : Machine δ) (i : Fin m.cells.size) (b : UInt8) : Machine δ :=
  { m with cells := m.cells.set i b }

def tick (m : Machine δ) : Machine δ := { m with steps := m.steps + 1 }

def enter (m : Machine δ) : Machine δ := { m with iterations := m.iterations + 1 }

/-- Does something to the cell at an offset, or stops if there is none. -/
@[inline] def withCell (m : Machine δ) (offset : Int64)
    (f : Fin m.cells.size → Outcome (Machine δ)) : Outcome (Machine δ) :=
  match m.locate offset with
  | .ok i => f i
  | .error t => .stopped (.trap t) m

/-- The low byte of a delta, which is what a cell takes of it. -/
def lowByte (delta : Int64) : UInt8 := delta.toUInt64.toUInt8

def perform [Device δ] (op : Op) (m : Machine δ) : Outcome (Machine δ) :=
  match op with
  | .move delta => .done { m with pointer := m.pointer + delta }
  | .add delta offset => m.withCell offset fun i => .done (m.setCell i (m.cells[i] + lowByte delta))
  | .clear offset => m.withCell offset fun i => .done (m.setCell i 0)
  | .put offset =>
    m.withCell offset fun i => .done { m with device := Device.put m.cells[i] m.device }
  | .get offset => m.withCell offset fun i =>
    match Device.get m.device with
    | .byte b device => .done { m with cells := m.cells.set i b, device }
    | .keep device => .done { m with device }
    | .crash reason device => .stopped (.crash reason) { m with device }
  | .unknown => .stopped .unknownStep m

/-- Repeats a body while the current cell is not zero. -/
def repeatBody (w : Watch) (body : Machine δ → Outcome (Machine δ)) :
    Nat → Machine δ → Outcome (Machine δ)
  | 0, _ => .outOfFuel
  | fuel + 1, m =>
    m.withCell 0 fun i =>
      if m.cells[i] = 0 then .done m
      else
        let m := m.enter
        if w.stops m.iterations then .stopped .cancelled m
        else
          match body m with
          | .done m => repeatBody w body fuel m
          | outcome => outcome

/-- Runs a block; `fuel` bounds the tests of each loop each time the loop is reached. -/
def exec [Device δ] (w : Watch) (fuel : Nat) : Block → Machine δ → Outcome (Machine δ)
  | .nil, m => .done m
  | .step op rest, m =>
    match m.tick.perform op with
    | .done m => exec w fuel rest m
    | outcome => outcome
  | .loop body rest, m =>
    match repeatBody w (exec w fuel body) fuel m.tick with
    | .done m => exec w fuel rest m
    | outcome => outcome

end Machine

end TapeLang
