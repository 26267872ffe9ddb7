import TapeLang.Optimize.Coalesce
import TapeLang.Optimize.OffsetFold

namespace TapeLang.Block

/-- Moves by `delta`, `n` of them. -/
def repeatMove (delta : Int64) (rest : Block) : Nat → Block
  | 0 => rest
  | n + 1 => step (.move delta) (repeatMove delta rest n)

/-- Moves of full length that leave at most `maxImmediate` to go. The most negative word is its
own negation, counts as short and is not split. -/
def fullMoves (delta : Int64) : Nat := (delta.abs.toNatClampNeg - 1) / maxImmediate.toNatClampNeg

/-- Moves that amount to `delta`, each of them within range. -/
def splitMove (delta : Int64) (rest : Block) : Block :=
  let full := if delta < 0 then -maxImmediate else maxImmediate
  let n := fullMoves delta
  repeatMove full (moved (delta - Int64.ofNat n * full) rest) n

def legalStep (op : Op) (rest : Block) : Block :=
  match op.offset? with
  | none => step op rest
  | some offset =>
    if offset.abs > maxImmediate then
      splitMove offset (step (op.withOffset 0) (splitMove (-offset) rest))
    else step op rest

/-- Splits what does not fit. A long move becomes several, a step at a far offset is done between a
move there and a move back, and deltas of cells are reduced to a byte. -/
def legalize : Block → Block
  | nil => nil
  | step (.move delta) rest => splitMove delta rest.legalize
  | step (.add delta offset) rest => legalStep (.add (byteDelta delta) offset) rest.legalize
  | step op rest => legalStep op rest.legalize
  | loop body rest => loop body.legalize rest.legalize

end TapeLang.Block
