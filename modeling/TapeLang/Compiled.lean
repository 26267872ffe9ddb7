import TapeLang.Block.Build
import TapeLang.Log
import TapeLang.Native.Image
import TapeLang.Optimize
import TapeLang.Run
import TapeLang.Stats

namespace TapeLang

structure Options where
  file : Text := []
  tapeSize : Int64 := Int64.ofNat Tape.defaultSize
  boundsCheck : Bool := true
  policy : EndPolicy := .zero
  passes : PassSet := .all
  /-- Run on the interpreter even where machine code could run. -/
  interpreter : Bool := false
  /-- Run on the interpreter where machine code cannot run. -/
  fallback : Bool := false
  checkInterval : Int64 := 0

namespace Options

/-- A tape size that is not positive changes nothing. -/
def withTapeSize (o : Options) (size : Int64) : Options :=
  if size > 0 then { o with tapeSize := size } else o

end Options

/-- A compiled program runs any number of times, each time on a fresh tape. -/
structure Compiled where
  program : Program
  literal : Block
  optimized : Block
  stats : Stats

namespace Compiled

def parseFailed (e : ParseError) (file : Text) : Log.Event :=
  { level := .debug
    error := some e.message
    fields := [(text "file", .text file)]
    message := text "parse failed" }

def compiledEvent (file : Text) (s : Stats) : Log.Event :=
  { level := .debug
    fields :=
      [ (text "file", .text file),
        (text "instructions", .number s.instructions),
        (text "literal_nodes", .number s.literalNodes),
        (text "optimized_nodes", .number s.optimizedNodes),
        (text "passes", .text s.passes) ]
    message := text "compiled" }

def ofProgram (p : Program) (passes : PassSet) : Compiled :=
  let literal := p.block
  let optimized := literal.optimize passes
  { program := p
    literal
    optimized
    stats :=
      { instructions := p.instructions.size
        literalNodes := literal.count
        optimizedNodes := optimized.count
        loopDepth := optimized.depth
        passes := passes.name } }

def compile (source : Text) (o : Options) : Except ParseError Compiled × List Log.Event :=
  match Program.parse ⟨o.file, source⟩ with
  | .error e => (.error e, [parseFailed e o.file])
  | .ok p =>
    let c := ofProgram p o.passes
    (.ok c, [compiledEvent o.file c.stats])

/-- Machine code for the program, not loaded. -/
def machineCode (c : Compiled) (boundsCheck : Bool) : Except Defect Native.Code :=
  Native.generate c.optimized { boundsCheck }

/-- The final state of a run. -/
structure Result where
  tape : Tape
  stats : Stats

/-- What a run came to: the failure if any, the result if there is one to show, and the console
after it. -/
structure Finished where
  failure : Option Failure
  result : Option Result
  console : Console
  events : List Log.Event := []

def interpreterName : Text := text "interpreter"

def fallbackEvent : Log.Event :=
  { level := .warn
    message := text "native code is not supported on this host; using the interpreter" }

def finishedEvent (failure : Option Failure) (pointer : Int64) : Log.Event :=
  { level := .debug
    error := failure.map Failure.message
    fields :=
      [ (text "engine", .text interpreterName),
        (text "pointer", .number pointer.toInt),
        (text "run_time", .number 0) ]
    message := text "run finished" }

/-- A failure after which the tape is not worth showing. -/
def hidesResult (f : Failure) : Bool := f.isInternal || f.category == .environment

def interpret (fuel : Nat) (w : Watch) (c : Compiled) (o : Options) (console : Console) :
    Option Finished :=
  (c.optimized.runWith fuel w (.new o.tapeSize) console).map fun r =>
    let stats : Stats :=
      { c.stats with
        engine := interpreterName
        steps := r.steps
        bytesWritten := r.console.written
        bytesRead := r.console.read }
    let hidden := match r.failure with | some f => hidesResult f | none => false
    { failure := r.failure
      result := if hidden then none else some { tape := r.tape, stats }
      console := r.console
      events := [finishedEvent r.failure r.tape.pointer] }

/-- Runs a program on a fresh tape; none if a loop outlasts the fuel. A run that was cancelled
before it began does nothing. -/
def run (fuel : Nat) (w : Watch) (c : Compiled) (o : Options) (console : Console) :
    Option Finished :=
  if w.raised then some { failure := some .cancelled, result := none, console }
  else
    let w := { w with interval := o.checkInterval }
    if o.interpreter then interpret fuel w c o console
    else if o.fallback then
      (interpret fuel w c o console).map fun f => { f with events := fallbackEvent :: f.events }
    else some { failure := some Native.unsupported, result := none, console }

end Compiled

end TapeLang
