import TapeLang.Block

namespace TapeLang

/-- The delta modulo 256, in [-128, 127]. -/
def byteDelta (delta : Int64) : Int64 :=
  let r := (delta % 256 + 256) % 256
  if r > 127 then r - 256 else r

namespace Block

/-- A move in front of a merged block. -/
def joinMove (delta : Int64) : Block → Block
  | step (.move next) rest => if delta + next = 0 then rest else step (.move (delta + next)) rest
  | b => if delta = 0 then b else step (.move delta) b

/-- An addition in front of a merged block. -/
def joinAdd (delta offset : Int64) : Block → Block
  | step (.add next offset') rest =>
    if offset' = offset then step (.add (byteDelta (delta + next)) offset) rest
    else step (.add (byteDelta delta) offset) (step (.add next offset') rest)
  | b => step (.add (byteDelta delta) offset) b

def join : Op → Block → Block
  | .move delta, b => joinMove delta b
  | .add delta offset, b => joinAdd delta offset b
  | op, b => step op b

/-- Merges neighbours. Moves in a row become one move, and none if they cancel; additions to one
cell in a row become one addition, which stays even when it adds nothing, since the cell is still
touched. -/
def coalesce : Block → Block
  | nil => nil
  | step op rest => join op rest.coalesce
  | loop body rest => loop body.coalesce rest.coalesce

end Block

end TapeLang
