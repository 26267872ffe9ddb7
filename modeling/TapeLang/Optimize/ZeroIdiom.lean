import TapeLang.Block

namespace TapeLang.Block

/-- The body of a loop that clears the current cell. -/
def isClearing : Block → Bool
  | step (.add delta offset) nil => offset == 0 && delta % 2 != 0
  | _ => false

/-- Clears a cell at once where a loop only adds an odd delta to it: such a loop passes through
every byte and so ends with the cell at zero. -/
def zeroIdiom : Block → Block
  | nil => nil
  | step op rest => step op rest.zeroIdiom
  | loop body rest =>
    if body.zeroIdiom.isClearing then step (.clear 0) rest.zeroIdiom
    else loop body.zeroIdiom rest.zeroIdiom

end TapeLang.Block
