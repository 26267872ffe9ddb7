import TapeLang.Text

namespace TapeLang

/-- One step of a block. `unknown` stands for a step that no engine can perform. -/
inductive Op where
  | move (delta : Int64)
  | add (delta offset : Int64)
  | clear (offset : Int64)
  | put (offset : Int64)
  | get (offset : Int64)
  | unknown
deriving DecidableEq, Repr

namespace Op

/-- The offset of the cell that the step touches. -/
def offset? : Op → Option Int64
  | add _ offset => some offset
  | clear offset => some offset
  | put offset => some offset
  | get offset => some offset
  | move _ => none
  | unknown => none

/-- The same step on the cell at another offset. -/
def withOffset (offset : Int64) : Op → Op
  | add delta _ => add delta offset
  | clear _ => clear offset
  | put _ => put offset
  | get _ => get offset
  | move delta => move delta
  | unknown => unknown

/-- Equal steps, where an unknown step equals nothing. -/
def same : Op → Op → Bool
  | unknown, _ => false
  | a, b => a == b

end Op

/-- The tree form of a program: a sequence of steps and loops. Deltas and offsets are 64-bit words
and wrap. -/
inductive Block where
  | nil
  | step (op : Op) (rest : Block)
  | loop (body rest : Block)
deriving DecidableEq, Repr

/-- An entry of a block: a step, or a loop with its body. -/
inductive Node where
  | step (op : Op)
  | loop (body : Block)
deriving DecidableEq, Repr

namespace Block

def ofNodes : List Node → Block
  | [] => nil
  | .step op :: rest => step op (ofNodes rest)
  | .loop body :: rest => loop body (ofNodes rest)

def nodes : Block → List Node
  | nil => []
  | step op rest => .step op :: rest.nodes
  | loop body rest => .loop body :: rest.nodes

/-- The number of entries, not counting those inside loops. -/
def length : Block → Nat
  | nil => 0
  | step _ rest => rest.length + 1
  | loop _ rest => rest.length + 1

/-- The number of steps and loops at every depth. -/
def count : Block → Nat
  | nil => 0
  | step _ rest => rest.count + 1
  | loop body rest => body.count + rest.count + 1

/-- The deepest nesting of loops. -/
def depth : Block → Nat
  | nil => 0
  | step _ rest => rest.depth
  | loop body rest => max (body.depth + 1) rest.depth

/-- Equal blocks, where an unknown step equals nothing. -/
def same : Block → Block → Bool
  | nil, nil => true
  | step a rest, step b rest' => a.same b && rest.same rest'
  | loop body rest, loop body' rest' => body.same body' && rest.same rest'
  | _, _ => false

/-- No step of the block is unknown. -/
def Known : Block → Prop
  | nil => True
  | step op rest => op ≠ .unknown ∧ rest.Known
  | loop body rest => body.Known ∧ rest.Known

end Block

end TapeLang
