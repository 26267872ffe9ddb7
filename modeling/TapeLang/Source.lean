import TapeLang.Text

namespace TapeLang

/-- Lines and columns count from zero and are shown from one. The numbers are 64-bit words and wrap.
-/
structure Position where
  offset : Int64
  line : Int64
  column : Int64
  file : Text
deriving DecidableEq, Repr

namespace Position

def lineNumber (p : Position) : Int64 := p.line + 1

def columnNumber (p : Position) : Int64 := p.column + 1

def toText (p : Position) : Text :=
  (if p.file.isEmpty then [] else p.file ++ text ":") ++
    Text.integer p.lineNumber.toInt ++ text ":" ++ Text.integer p.columnNumber.toInt

end Position

structure Source where
  file : Text
  bytes : Text
deriving DecidableEq, Repr

namespace Source

/-- The offsets just after each newline of a text that starts at offset `i`. -/
def startsAfterNewlines : Nat → Text → List Nat
  | _, [] => []
  | i, b :: t =>
    if b = Text.newline then (i + 1) :: startsAfterNewlines (i + 1) t
    else startsAfterNewlines (i + 1) t

/-- The offset of the first byte of every line. -/
def lineStarts (s : Source) : List Nat := 0 :: startsAfterNewlines 0 s.bytes

/-- The position of a byte offset, on the last line that starts at or before it. -/
def position (s : Source) (offset : Int64) : Position :=
  let starts := s.lineStarts
  let line := starts.countP (fun start => Int64.ofNat start < offset + 1) - 1
  { offset
    line := Int64.ofNat line
    column := offset - Int64.ofNat (starts.getD line 0)
    file := s.file }

/-- A line without its newline and without the carriage returns before it; empty outside. -/
def line (s : Source) (number : Int64) : Text :=
  if number < 0 then [] else
  let starts := s.lineStarts
  match starts[number.toNatClampNeg]? with
  | none => []
  | some start =>
    let stop := match starts[number.toNatClampNeg + 1]? with
      | some next => next - 1
      | none => s.bytes.length
    Text.dropTrailing (· == 0x0D) ((s.bytes.drop start).take (stop - start))

end Source

end TapeLang
