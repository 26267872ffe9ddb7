import TapeLang.Text

namespace TapeLang.A64

/-- A register number. Number 31 is the stack pointer or the zero register, by instruction. -/
abbrev Reg := UInt8

/-- Register `r` as a 64-bit register, with 31 the stack pointer. -/
def xOrSp (r : Reg) : Text := if r = 31 then text "sp" else text "x" ++ Text.decimal r.toNat

/-- Register `r` as a 64-bit register, with 31 the zero register. -/
def xOrZero (r : Reg) : Text := if r = 31 then text "xzr" else text "x" ++ Text.decimal r.toNat

/-- Register `r` as a 32-bit register, with 31 the zero register. -/
def wOrZero (r : Reg) : Text := if r = 31 then text "wzr" else text "w" ++ Text.decimal r.toNat

/-- A condition of a conditional branch, by its number. -/
abbrev Cond := UInt8

namespace Cond

/-- At or above, of unsigned numbers. -/
def hs : Cond := 2

/-- Below, of unsigned numbers. -/
def lo : Cond := 3

def names : List (Cond × Text) :=
  [(0, text "eq"), (1, text "ne"), (2, text "hs"), (3, text "lo"), (4, text "mi"), (5, text "pl"),
    (8, text "hi"), (9, text "ls"), (10, text "ge"), (11, text "lt"), (12, text "gt"),
    (13, text "le"), (14, text "al")]

def name (c : Cond) : Text :=
  match names.lookup c with
  | some n => n
  | none => text "cond(" ++ Text.decimal c.toNat ++ text ")"

end Cond

/-- A position in the code, by number. -/
abbrev Label := Int64

def labelName (l : Label) : Text := text "L" ++ Text.integer l.toInt

inductive Arith where
  | add
  | sub
deriving DecidableEq, Repr

/-- How a register pair is addressed. -/
inductive PairMode where
  | offset
  | preIndex
  | postIndex
deriving DecidableEq, Repr

/-- The instructions that compiled programs use. A branch names its target in the type parameter, a
label while code is written and a displacement once it is read back. -/
inductive Instr (τ : Type) where
  /-- Adds or subtracts an immediate, in 64 bits if `wide` and else in 32. -/
  | arith (op : Arith) (wide : Bool) (rd rn : Reg) (imm : Int64)
  | movFromSp (rd : Reg)
  | mov (rd rm : Reg)
  | subReg (rd rn rm : Reg)
  | cmp (rn rm : Reg)
  | loadByte (rt rn : Reg) (imm : Int64)
  | storeByte (rt rn : Reg) (imm : Int64)
  | pair (load : Bool) (mode : PairMode) (rt rt2 rn : Reg) (offset : Int64)
  | call (rn : Reg)
  | ret
  | nop
  | branch (target : τ)
  | branchIfZero (rt : Reg) (target : τ)
  | branchIfNotZero (rt : Reg) (target : τ)
  | branchIf (cond : Cond) (target : τ)
  | branchIfBit (rt : Reg) (bit : Nat) (target : τ)
deriving DecidableEq, Repr

/-- Where a branch keeps its displacement, counted in words. -/
structure Field where
  bits : Nat
  shift : Nat
deriving DecidableEq, Repr

/-- Displacements from `-reach` up to but not including `reach` fit. -/
def Field.reach (f : Field) : Int := Int.pow 2 (f.bits - 1)

/-- The displacement in its place in the word. -/
def Field.encode (f : Field) (displacement : Int) : UInt32 :=
  (UInt32.ofInt displacement &&& (((1 : UInt32) <<< f.bits.toUInt32) - 1)) <<< f.shift.toUInt32

/-- A register number in its place in the word. -/
def place (r : UInt8) (shift : UInt32) : UInt32 := r.toUInt32 <<< shift

def maxImm12 : Int64 := 4095

/-- The immediate fits in an unsigned 12-bit field. -/
def fitsImm12 (imm : Int64) : Bool := 0 ≤ imm && imm ≤ maxImm12

def imm12 (imm : Int64) : UInt32 := if fitsImm12 imm then imm.toUInt64.toUInt32 <<< 10 else 0

def fitsPair (offset : Int64) : Bool := offset % 8 == 0 && -512 ≤ offset && offset ≤ 504

def imm7 (offset : Int64) : UInt32 := ((offset / 8).toUInt64.toUInt32 &&& 0x7F) <<< 15

namespace Instr

variable {τ : Type}

def target? : Instr τ → Option τ
  | branch t => some t
  | branchIfZero _ t => some t
  | branchIfNotZero _ t => some t
  | branchIf _ t => some t
  | branchIfBit _ _ t => some t
  | _ => none

/-- The displacement field of a branch. -/
def field : Instr τ → Field
  | branch _ => ⟨26, 0⟩
  | branchIfBit _ _ _ => ⟨14, 5⟩
  | _ => ⟨19, 5⟩

def pairBase : PairMode → UInt32
  | .offset => 0xA9000000
  | .preIndex => 0xA9800000
  | .postIndex => 0xA8800000

def arithBase : Arith → Bool → UInt32
  | .add, true => 0x91000000
  | .sub, true => 0xD1000000
  | .add, false => 0x11000000
  | .sub, false => 0x51000000

/-- The instruction word, with the displacement of a branch left at zero. Register numbers are
put in place unmasked. -/
def word : Instr τ → UInt32
  | arith op wide rd rn imm =>
    arithBase op wide ||| imm12 imm ||| place rn 5 ||| rd.toUInt32
  | movFromSp rd => 0x91000000 ||| place 31 5 ||| rd.toUInt32
  | mov rd rm => 0xAA0003E0 ||| place rm 16 ||| rd.toUInt32
  | subReg rd rn rm =>
    0xCB000000 ||| place rm 16 ||| place rn 5 ||| rd.toUInt32
  | cmp rn rm => 0xEB000000 ||| place rm 16 ||| place rn 5 ||| 31
  | loadByte rt rn imm => 0x39400000 ||| imm12 imm ||| place rn 5 ||| rt.toUInt32
  | storeByte rt rn imm => 0x39000000 ||| imm12 imm ||| place rn 5 ||| rt.toUInt32
  | pair load mode rt rt2 rn offset =>
    pairBase mode ||| (if load then 0x00400000 else 0) ||| imm7 offset |||
      place rt2 10 ||| place rn 5 ||| rt.toUInt32
  | call rn => 0xD63F0000 ||| place rn 5
  | ret => 0xD65F03C0
  | nop => 0xD503201F
  | branch _ => 0x14000000
  | branchIfZero rt _ => 0x34000000 ||| rt.toUInt32
  | branchIfNotZero rt _ => 0x35000000 ||| rt.toUInt32
  | branchIf cond _ => 0x54000000 ||| cond.toUInt32
  | branchIfBit rt bit _ => 0x37000000 ||| place bit.toUInt8 19 ||| rt.toUInt32

def immText (imm : Int64) : Text := text "#" ++ Text.integer imm.toInt

def memory (rn : Reg) (imm : Int64) : Text :=
  if imm = 0 then text "[" ++ xOrSp rn ++ text "]"
  else text "[" ++ xOrSp rn ++ text ", " ++ immText imm ++ text "]"

def pairMemory : PairMode → Reg → Int64 → Text
  | .offset, rn, offset => memory rn offset
  | .preIndex, rn, offset => text "[" ++ xOrSp rn ++ text ", " ++ immText offset ++ text "]!"
  | .postIndex, rn, offset => text "[" ++ xOrSp rn ++ text "], " ++ immText offset

def arithName : Arith → Text
  | .add => text "add"
  | .sub => text "sub"

def operands (ts : List Text) : Text := Text.join (text ", ") ts

/-- The text of an instruction whose branch targets read as `name` says. -/
def toText (name : τ → Text) : Instr τ → Text
  | arith op wide rd rn imm =>
    let reg := if wide then xOrSp else wOrZero
    arithName op ++ text " " ++ operands [reg rd, reg rn, immText imm]
  | movFromSp rd => text "mov " ++ operands [xOrSp rd, text "sp"]
  | mov rd rm => text "mov " ++ operands [xOrZero rd, xOrZero rm]
  | subReg rd rn rm => text "sub " ++ operands [xOrZero rd, xOrZero rn, xOrZero rm]
  | cmp rn rm => text "cmp " ++ operands [xOrZero rn, xOrZero rm]
  | loadByte rt rn imm => text "ldrb " ++ operands [wOrZero rt, memory rn imm]
  | storeByte rt rn imm => text "strb " ++ operands [wOrZero rt, memory rn imm]
  | pair load mode rt rt2 rn offset =>
    (if load then text "ldp " else text "stp ") ++
      operands [xOrZero rt, xOrZero rt2, pairMemory mode rn offset]
  | call rn => text "blr " ++ xOrZero rn
  | ret => text "ret"
  | nop => text "nop"
  | branch t => text "b " ++ name t
  | branchIfZero rt t => text "cbz " ++ operands [wOrZero rt, name t]
  | branchIfNotZero rt t => text "cbnz " ++ operands [wOrZero rt, name t]
  | branchIf cond t => text "b." ++ cond.name ++ text " " ++ name t
  | branchIfBit rt bit t =>
    text "tbnz " ++ operands [wOrZero rt, text "#" ++ Text.decimal bit, name t]

end Instr

end TapeLang.A64
