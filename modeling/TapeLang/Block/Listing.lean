import TapeLang.Block
import TapeLang.Text.Escape

namespace TapeLang

def Op.toText : Op → Text
  | .move delta => text "ptr " ++ Text.signed delta.toInt
  | .add delta offset =>
    text "cell[" ++ Text.signed offset.toInt ++ text "] " ++ Text.signed delta.toInt
  | .clear offset => text "cell[" ++ Text.signed offset.toInt ++ text "] = 0"
  | .put offset => text "output cell[" ++ Text.signed offset.toInt ++ text "]"
  | .get offset => text "input cell[" ++ Text.signed offset.toInt ++ text "]"
  | .unknown => text "%!s(<nil>)"

def Node.toText : Node → Text
  | .step op => op.toText
  | .loop body => text "loop (" ++ Text.decimal body.length ++ text " nodes)"

namespace Block

def indent (depth : Nat) : Text := Text.blanks (2 * depth)

/-- The lines of a block, newlines included. -/
def lines (depth : Nat) : Block → List Text
  | nil => []
  | step op rest => (indent depth ++ op.toText ++ [Text.newline]) :: rest.lines depth
  | loop body rest =>
    (indent depth ++ text "loop \x7b" ++ [Text.newline]) ::
      (body.lines (depth + 1) ++
        (indent depth ++ text "\x7d" ++ [Text.newline]) :: rest.lines depth)

def listingLines (b : Block) : List Text := b.lines 0

def listing (b : Block) : Text := b.listingLines.flatten

def loopStyle : Text.Style := [.magenta]

section
variable (painter : Text.Painter) (color : Bool)

/-- Adds the block to what is `built`, with the words that open and close a loop painted. -/
def display (depth : Nat) : Block → Array UInt8 → Array UInt8
  | nil, built => built
  | loop body rest, built =>
    let opening := painter.paint color loopStyle (text "loop \x7b")
    let closing := painter.paint color loopStyle (text "\x7d")
    let inner := body.display (depth + 1) (built ++ (indent depth ++ opening ++ [Text.newline]))
    rest.display depth (inner ++ (indent depth ++ closing ++ [Text.newline]))
  | step op rest, built =>
    rest.display depth (built ++ (indent depth ++ op.toText ++ [Text.newline]))

/-- The listing for a terminal. -/
def coloredListing (b : Block) : Text := (b.display painter color 0 #[]).toList

end

end Block

end TapeLang
