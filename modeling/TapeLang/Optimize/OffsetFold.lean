import TapeLang.Block

namespace TapeLang

/-- The largest magnitude of a move or an offset that one instruction can carry. -/
def maxImmediate : Int64 := 4095

namespace Block

/-- A move by `delta`, if there is anything to move by. -/
def moved (delta : Int64) (rest : Block) : Block :=
  if delta = 0 then rest else step (.move delta) rest

/-- Folds a block whose moves so far amount to `pending`. -/
def foldOffsets (pending : Int64) : Block → Block
  | nil => moved pending nil
  | loop body rest => moved pending (loop (body.foldOffsets 0) (rest.foldOffsets 0))
  | step (.move delta) rest => rest.foldOffsets (pending + delta)
  | step op rest =>
    match op.offset? with
    | none => rest.foldOffsets pending
    | some offset =>
      if (pending + offset).abs > maxImmediate then
        moved pending (step (op.withOffset offset) (rest.foldOffsets 0))
      else step (op.withOffset (pending + offset)) (rest.foldOffsets pending)

end Block

end TapeLang
