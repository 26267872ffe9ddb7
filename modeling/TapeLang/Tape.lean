import TapeLang.Text

namespace TapeLang

/-- A row of byte cells and a pointer, which may stand outside the row. -/
structure Tape where
  cells : Array UInt8
  pointer : Int64 := 0
deriving DecidableEq, Repr

namespace Tape

def defaultSize : Nat := 30000

/-- A tape of zeros, of the default size unless a positive one is given. -/
def new (size : Int64) : Tape :=
  { cells := Array.replicate (if size ≤ 0 then defaultSize else size.toNatClampNeg) 0 }

def size (t : Tape) : Nat := t.cells.size

def contains (t : Tape) (address : Int64) : Bool :=
  0 ≤ address && address.toNatClampNeg < t.size

/-- Overwrites cells from an index on with as many bytes as there is room for. -/
def overwrite (cells : Array UInt8) (index : Nat) : Text → Array UInt8
  | [] => cells
  | b :: rest => overwrite (cells.setIfInBounds index b) (index + 1) rest

def store (t : Tape) (index : Nat) (bytes : Text) : Tape :=
  { t with cells := overwrite t.cells index bytes }

/-- The zero tape of the same size with the pointer back at its start. -/
def reset (t : Tape) : Tape := { cells := Array.replicate t.size 0 }

def toText (t : Tape) : Text :=
  text "tape(" ++ Text.decimal t.size ++ text " cells, pointer " ++
    Text.integer t.pointer.toInt ++ text ")"

end Tape

end TapeLang
