import TapeLang.Optimize.Pass
import TapeLang.Optimize.Coalesce
import TapeLang.Optimize.ZeroIdiom
import TapeLang.Optimize.OffsetFold
import TapeLang.Optimize.Legalize

namespace TapeLang.Block

def applyIf (on : Bool) (f : Block → Block) (b : Block) : Block := if on then f b else b

/-- The chosen passes in a fixed order, then the split into legal steps, which always runs. -/
def optimize (passes : PassSet) (b : Block) : Block :=
  legalize <|
  applyIf (passes.contains .offsetFold) (foldOffsets 0) <|
  applyIf (passes.contains .zeroIdiom) zeroIdiom <|
  applyIf (passes.contains .coalesce) coalesce b

end TapeLang.Block
