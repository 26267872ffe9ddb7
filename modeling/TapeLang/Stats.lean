import TapeLang.Text.Escape
import TapeLang.Text.Json

namespace TapeLang

/-- Statistics of a compilation and a run. -/
structure Stats where
  instructions : Int := 0
  literalNodes : Int := 0
  optimizedNodes : Int := 0
  loopDepth : Int := 0
  passes : Text := []
  engine : Text := []
  codeBytes : Int := 0
  boundsChecks : Int := 0
  steps : Int := 0
  bytesWritten : Int := 0
  bytesRead : Int := 0
  /-- Nanoseconds; zero where nobody measures. -/
  compileTime : Int := 0
  runTime : Int := 0
deriving DecidableEq, Repr

namespace Stats

inductive Value where
  | number (n : Int)
  | text (t : Text)
deriving DecidableEq, Repr

/-- The entry is left out of the document. -/
def Value.isZero : Value → Bool
  | number n => n == 0
  | text t => t.isEmpty

structure Entry where
  key : Text
  value : Value
  /-- Left out when zero or empty. -/
  optional : Bool := false
deriving DecidableEq, Repr

def allEntries (s : Stats) : List Entry :=
  [ ⟨text "instructions", .number s.instructions, false⟩,
    ⟨text "literal_nodes", .number s.literalNodes, false⟩,
    ⟨text "optimized_nodes", .number s.optimizedNodes, false⟩,
    ⟨text "loop_depth", .number s.loopDepth, false⟩,
    ⟨text "passes", .text s.passes, false⟩,
    ⟨text "engine", .text s.engine, true⟩,
    ⟨text "code_bytes", .number s.codeBytes, true⟩,
    ⟨text "bounds_checks", .number s.boundsChecks, true⟩,
    ⟨text "steps", .number s.steps, true⟩,
    ⟨text "bytes_written", .number s.bytesWritten, false⟩,
    ⟨text "bytes_read", .number s.bytesRead, false⟩,
    ⟨text "compile_time_ns", .number s.compileTime, false⟩,
    ⟨text "run_time_ns", .number s.runTime, false⟩ ]

def entries (s : Stats) : List Entry := s.allEntries.filter fun e => !(e.optional && e.value.isZero)

/-- A JSON object with one indented entry a line. -/
def document (lines : List Text) : Text :=
  text "\x7b\n" ++ Text.join (text ",\n") (lines.map (text "  " ++ ·)) ++ text "\n\x7d"

def plainEntry (e : Entry) : Text :=
  e.key.documentQuote true ++ text ": " ++
    match e.value with
    | .number n => Text.integer n
    | .text t => t.documentQuote true

def keyStyle : Text.Style := [.blue, .bold]

def numberStyle : Text.Style := [.cyan, .bold]

def textStyle : Text.Style := [.green, .bold]

def coloredEntry (painter : Text.Painter) (e : Entry) : Text :=
  painter.paint true keyStyle (text "\"" ++ e.key ++ text "\"") ++ text ": " ++
    match e.value with
    | .number n => painter.paint true numberStyle (Text.integer n)
    | .text t => painter.paint true textStyle (t.documentQuote false)

/-- The document: in order of the entries, or for a terminal, by key and in colour. -/
def toJson (s : Stats) (painter : Text.Painter) (color : Bool) : Text :=
  if color then
    document ((s.entries.mergeSort fun a b => decide (a.key < b.key) || a.key == b.key).map
      (coloredEntry painter))
  else document (s.entries.map plainEntry)

end Stats

end TapeLang
