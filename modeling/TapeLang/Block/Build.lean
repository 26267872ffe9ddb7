import TapeLang.Block
import TapeLang.Program

namespace TapeLang

/-- The step of an instruction that is no bracket. -/
def Kind.op? : Kind → Option Op
  | .moveLeft => some (.move (-1))
  | .moveRight => some (.move 1)
  | .increment => some (.add 1 0)
  | .decrement => some (.add (-1) 0)
  | .output => some (.put 0)
  | .input => some (.get 0)
  | _ => none

namespace Block

/-- The block of the instructions with indices from `i` up to `stop`, read by the links; none if
a link or an index leaves that range. -/
def between? (is : Array Instruction) (i stop : Nat) : Option Block :=
  if i < stop then
    match is[i]? with
    | none => none
    | some instruction =>
      if instruction.kind = .loopOpen then
        match instruction.partner with
        | none => none
        | some j =>
          if i < j ∧ j < stop then
            match between? is (i + 1) j, between? is (j + 1) stop with
            | some body, some rest => some (loop body rest)
            | _, _ => none
          else none
      else
        match instruction.kind.op?, between? is (i + 1) stop with
        | some op, some rest => some (step op rest)
        | none, some rest => some rest
        | _, none => none
  else some nil
termination_by stop - i

/-- Every instruction becomes a step of its own; a loop spans the instructions between its linked
brackets. -/
def ofInstructions? (is : Array Instruction) : Option Block := between? is 0 is.size

end Block

/-- The literal block of a program, one node for each instruction but the closing brackets. -/
def Program.block (p : Program) : Block := (Block.ofInstructions? p.instructions).getD .nil

end TapeLang
