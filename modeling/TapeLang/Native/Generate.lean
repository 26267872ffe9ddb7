import TapeLang.A64.Assembler
import TapeLang.Block

namespace TapeLang.Native

open A64

structure Options where
  /-- Check every access against the bounds of the tape. -/
  boundsCheck : Bool := true
  /-- Reach far targets by a short branch around an unconditional one. -/
  farBranches : Bool := false
deriving DecidableEq, Repr

structure Code where
  bytes : Text
  listing : List Line
  /-- The number of bounds checks. -/
  checks : Nat

namespace Reg

def value : Reg := 0

/-- The address of a cell away from the pointer. -/
def address : Reg := 9

/-- The index of a cell, for the bounds check. -/
def index : Reg := 10

/-- The address of the current cell. -/
def pointer : Reg := 19

def base : Reg := 20

def length : Reg := 21

def context : Reg := 22

def put : Reg := 23

def get : Reg := 24

def trap : Reg := 25

def frame : Reg := 29

def link : Reg := 30

def stack : Reg := 31

def zero : Reg := 31

end Reg

def frameSize : Int64 := 80

/-- No node takes more instructions than this. -/
def maxNodeWords : Nat := 12

/-- The reach of a conditional branch in words. -/
def nearWords : Nat := Nat.pow 2 18

structure Generator where
  asm : Assembler := {}
  checks : Nat := 0

namespace Generator

def emit (g : Generator) (is : List (Instr Label)) : Generator := { g with asm := g.asm.emitAll is }

def newLabel (g : Generator) : Label × Generator :=
  let l := g.asm.nextLabel
  (l, { g with asm := g.asm.addLabel })

def bind (g : Generator) (l : Label) : Generator := { g with asm := g.asm.bind l }

/-- The way out of the code. -/
def exitLabel : Label := 0

/-- The report of a failed check. -/
def trapLabel : Label := 1

section
variable (o : Options)

/-- The register and displacement that address the cell at an offset. -/
def address (offset : Int64) (g : Generator) : Reg × Int64 × Generator :=
  if offset = 0 then (Reg.pointer, 0, g)
  else if offset > 0 then
    if o.boundsCheck then
      (Reg.address, 0, g.emit [.arith .add true Reg.address Reg.pointer offset])
    else (Reg.pointer, offset, g)
  else (Reg.address, 0, g.emit [.arith .sub true Reg.address Reg.pointer (-offset)])

/-- Leaves for the trap unless the address in a register lies on the tape. The comparison is
unsigned, so an address below the base fails too. -/
def check (reg : Reg) (g : Generator) : Generator :=
  let g := { g with checks := g.checks + 1 }.emit
    [.subReg Reg.index reg Reg.base, .cmp Reg.index Reg.length]
  if o.farBranches then
    let (ok, g) := g.newLabel
    (g.emit [.branchIf Cond.lo ok, .branch trapLabel]).bind ok
  else g.emit [.branchIf Cond.hs trapLabel]

def cell (offset : Int64) (g : Generator) : Reg × Int64 × Generator :=
  let (reg, displacement, g) := g.address o offset
  (reg, displacement, if o.boundsCheck then g.check o reg else g)

def move (delta : Int64) (g : Generator) : Generator :=
  if delta > 0 then g.emit [.arith .add true Reg.pointer Reg.pointer delta]
  else if delta < 0 then g.emit [.arith .sub true Reg.pointer Reg.pointer (-delta)]
  else g

def add (delta offset : Int64) (g : Generator) : Generator :=
  let (reg, displacement, g) := g.cell o offset
  if delta = 0 then g
  else g.emit
    [ .loadByte Reg.value reg displacement,
      if delta > 0 then .arith .add false Reg.value Reg.value delta
        else .arith .sub false Reg.value Reg.value (-delta),
      .storeByte Reg.value reg displacement ]

def clear (offset : Int64) (g : Generator) : Generator :=
  let (reg, displacement, g) := g.cell o offset
  g.emit [.storeByte Reg.zero reg displacement]

def put (offset : Int64) (g : Generator) : Generator :=
  let (reg, displacement, g) := g.cell o offset
  g.emit [.loadByte 1 reg displacement, .mov 0 Reg.context, .call Reg.put]

/-- The call may change the address register, so the address is computed again after it. -/
def get (offset : Int64) (g : Generator) : Generator :=
  let (_, _, g) := g.cell o offset
  let g := g.emit [.mov 0 Reg.context, .call Reg.get]
  let (skip, g) := g.newLabel
  let g := g.emit [.branchIfBit Reg.value 31 skip]
  let (reg, displacement, g) := g.address o offset
  (g.emit [.storeByte Reg.value reg displacement]).bind skip

/-- The head of a loop: its test, and the labels of its head and end. -/
def openLoop (g : Generator) : Label × Label × Generator :=
  let (head, g) := g.newLabel
  let (stop, g) := g.newLabel
  let (reg, displacement, g) := (g.bind head).cell o 0
  let g := g.emit [.loadByte Reg.value reg displacement]
  if o.farBranches then
    let (body, g) := g.newLabel
    (head, stop, (g.emit [.branchIfNotZero Reg.value body, .branch stop]).bind body)
  else (head, stop, g.emit [.branchIfZero Reg.value stop])

def closeLoop (head stop : Label) (g : Generator) : Generator :=
  (g.emit [.branch head]).bind stop

def step (op : Op) (g : Generator) : Except Defect Generator :=
  match op with
  | .move delta => .ok (g.move delta)
  | .add delta offset => .ok (g.add o delta offset)
  | .clear offset => .ok (g.clear o offset)
  | .put offset => .ok (g.put o offset)
  | .get offset => .ok (g.get o offset)
  | .unknown => .error ⟨text "codegen", text "unknown node type <nil>"⟩

/-- Code for a block; faults of the assembler show at the end of each block. -/
def block : Block → Generator → Except Defect Generator
  | .nil, g =>
    match g.asm.fault with
    | some f => .error f.toDefect
    | none => .ok g
  | .step op rest, g =>
    match g.step o op with
    | .ok g => block rest g
    | .error e => .error e
  | .loop body rest, g =>
    let (head, stop, g) := g.openLoop o
    match block body g with
    | .ok g => block rest (g.closeLoop head stop)
    | .error e => .error e

end

/-- Saves the registers that calls preserve and takes the arguments. -/
def prologue : List (Instr Label) :=
  [ .pair false .preIndex Reg.frame Reg.link Reg.stack (-frameSize),
    .movFromSp Reg.frame,
    .pair false .offset 19 20 Reg.stack 16,
    .pair false .offset 21 22 Reg.stack 32,
    .pair false .offset 23 24 Reg.stack 48,
    .pair false .offset 25 26 Reg.stack 64,
    .mov Reg.base 0,
    .mov Reg.length 1,
    .mov Reg.context 2,
    .mov Reg.put 3,
    .mov Reg.get 4,
    .mov Reg.trap 5,
    .mov Reg.pointer 6 ]

def epilogue : List (Instr Label) :=
  [ .mov 0 Reg.pointer,
    .pair true .offset 25 26 Reg.stack 64,
    .pair true .offset 23 24 Reg.stack 48,
    .pair true .offset 21 22 Reg.stack 32,
    .pair true .offset 19 20 Reg.stack 16,
    .pair true .postIndex Reg.frame Reg.link Reg.stack frameSize,
    .ret ]

/-- Reports the index that failed its check and leaves. -/
def trapStub : List (Instr Label) :=
  [.mov 0 Reg.context, .mov 1 Reg.index, .call Reg.trap, .branch exitLabel]

/-- A generator with the two labels that all code shares. -/
def start : Generator := ((({} : Generator).newLabel).2.newLabel).2

def close (g : Generator) : Generator :=
  let g := (g.bind exitLabel).emit epilogue
  if g.checks = 0 then g else (g.bind trapLabel).emit trapStub

def toCode (g : Generator) : Except Defect Code :=
  match g.asm.finish with
  | (_, some f) => .error f.toDefect
  | (asm, none) => .ok { bytes := asm.bytes, listing := asm.listing, checks := g.checks }

end Generator

/-- Far branches are used when asked for, or when the block might outgrow the near ones. -/
def Options.adapt (o : Options) (b : Block) : Options :=
  { o with farBranches := o.farBranches || b.count * maxNodeWords + 64 ≥ nearWords }

/-- The machine code of a block. It is a function of the tape's base and length, a context, the
addresses of three host routines and the address of the first cell, and returns the address of the
last. -/
def generate (b : Block) (o : Options) : Except Defect Code :=
  match (Generator.start.emit Generator.prologue).block (o.adapt b) b with
  | .ok g => g.close.toCode
  | .error e => .error e

end TapeLang.Native
