import TapeLang.A64.Assembler
import TapeLang.Table

namespace TapeLang.Native

open A64

/-- A line of code with its text split at the first blank. -/
structure Disassembled where
  offset : Int64
  word : UInt32
  opcode : Text
  operands : Text
  labels : List Label
deriving DecidableEq, Repr

def labelList (labels : List Label) : Text := Text.join (text ",") (labels.map labelName)

namespace Disassembled

def ofLine (l : Line) : Disassembled :=
  let (opcode, operands) := Text.cut Text.space l.text
  { offset := l.offset, word := l.word, opcode, operands := operands.getD [], labels := l.labels }

def labelStyle : Text.Style := [.yellow]

def opcodeStyle : Text.Style := [.cyan]

section
variable (painter : Text.Painter) (color : Bool)

def row (d : Disassembled) : List Text :=
  [ Text.integer d.offset.toInt,
    Text.hex 8 d.word.toNat,
    painter.paint color labelStyle (labelList d.labels),
    painter.paint color opcodeStyle d.opcode,
    d.operands ]

def table (ds : List Disassembled) : Table :=
  { header := [text "Offset", text "Word", text "Label", text "Opcode", text "Operands"]
    headerAlign := [.center, .center, .center, .center, .center]
    columnAlign := [.right, .left, .left, .left, .left]
    rows := ds.map (row painter color) }

end

end Disassembled

def disassemble (lines : List Line) : List Disassembled := lines.map Disassembled.ofLine

/-- The table of a listing, for a terminal if `color`. -/
def listingTable (painter : Text.Painter) (color : Bool) (lines : List Line) : Text :=
  (Disassembled.table painter color (disassemble lines)).render

end TapeLang.Native
