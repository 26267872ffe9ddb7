import TapeLang.Text.Escape

namespace TapeLang

inductive Alignment where
  | left
  | center
  | right
deriving DecidableEq, Repr

def Alignment.ofNumber (n : Int) : Alignment :=
  if n = 1 then .center else if n = 2 then .right else .left

/-- A column is as wide as its widest cell on a terminal; colours take no room. -/
structure Table where
  header : List Text := []
  headerAlign : List Alignment := []
  columnAlign : List Alignment := []
  rows : List (List Text) := []
deriving DecidableEq, Repr

namespace Table

/-- The larger of two numbers in each place; what one list lacks comes from the other. -/
def widest : List Nat → List Nat → List Nat
  | [], ws => ws
  | vs, [] => vs
  | v :: vs, w :: ws => max v w :: widest vs ws

/-- The widths of all columns. -/
def widths (t : Table) : List Nat :=
  (t.header :: t.rows).foldl (fun ws row => widest ws (row.map Text.visibleWidth)) []

/-- The cell with blanks on the side or sides that its alignment names. -/
def pad (width : Nat) (align : Alignment) (cell : Text) : Text :=
  let gap := width - cell.visibleWidth
  match align with
  | .left => cell ++ Text.blanks gap
  | .center => Text.blanks (gap / 2) ++ cell ++ Text.blanks (gap - gap / 2)
  | .right => Text.blanks gap ++ cell

/-- The cells of a row padded to their columns; missing cells are empty. -/
def padded : List Nat → List Alignment → List Text → List Text
  | [], _, _ => []
  | w :: ws, aligns, cells =>
    pad w (aligns.headD .left) (cells.headD []) :: padded ws aligns.tail cells.tail

def line (ws : List Nat) (aligns : List Alignment) (cells : List Text) : Text :=
  text "|" ++ (padded ws aligns cells).flatMap (fun cell => text " " ++ cell ++ text " |") ++
    [Text.newline]

def border (ws : List Nat) : Text :=
  text "+" ++ ws.flatMap (fun w => Text.times (w + 2) (text "-") ++ text "+") ++ [Text.newline]

def lines (t : Table) : List Text :=
  let ws := t.widths
  [border ws] ++
    (if t.header.isEmpty then [] else [line ws t.headerAlign t.header, border ws]) ++
    t.rows.map (line ws t.columnAlign) ++
    [border ws]

def render (t : Table) : Text := t.lines.flatten

end Table

end TapeLang
