import TapeLang.A64.Instr
import TapeLang.Failure

namespace TapeLang.A64

inductive Fault where
  | immediate (name : Text) (imm : Int64)
  | pairOffset (offset : Int64)
  | bitRange (bit : Nat)
  | bindUnknown (l : Label)
  | boundTwice (l : Label)
  | branchUnknown (l : Label)
  | neverBound (l : Label)
  | outOfReach (index : Nat) (l : Label) (displacement : Int)
deriving DecidableEq, Repr

namespace Fault

def message : Fault → Text
  | immediate name imm =>
    name ++ text " immediate " ++ Text.integer imm.toInt ++ text " does not fit in 12 bits"
  | pairOffset offset =>
    text "pair offset " ++ Text.integer offset.toInt ++
      text " is not a multiple of 8 in [-512, 504]"
  | bitRange bit => text "tbnz bit " ++ Text.decimal bit ++ text " out of range"
  | bindUnknown l => text "bind of unknown label " ++ labelName l
  | boundTwice l => text "label " ++ labelName l ++ text " is bound twice"
  | branchUnknown l => text "branch to unknown label " ++ labelName l
  | neverBound l => text "label " ++ labelName l ++ text " is never bound"
  | outOfReach index l displacement =>
    text "branch at offset " ++ Text.decimal (4 * index) ++ text " to " ++ labelName l ++
      text " is out of range (" ++ Text.integer displacement ++ text " words)"

def toDefect (f : Fault) : Defect := ⟨text "arm64", f.message⟩

end Fault

/-- A branch whose displacement is still to be filled in. -/
structure Fixup where
  index : Nat
  label : Label
  field : Field
deriving DecidableEq, Repr

/-- One instruction of a listing, with the labels bound to its position. -/
structure Line where
  offset : Int64
  word : UInt32
  text : Text
  labels : List Label
deriving DecidableEq, Repr

/-- Code in the making. Instructions are appended as words; branches name labels, which may be bound
before or after their use, and finishing fills in the displacements. The first fault is kept and
makes every finish fail. -/
structure Assembler where
  words : Array UInt32 := #[]
  /-- The texts of the words, made only when the code is listed. -/
  texts : Array (Thunk Text) := #[]
  /-- The positions of the labels made so far, counted in words. -/
  labels : Array (Option Nat) := #[]
  fixups : Array Fixup := #[]
  fault : Option Fault := none

namespace Instr

variable {τ : Type}

/-- A fault that keeps the instruction out of the code. -/
def refusal? : Instr τ → Option Fault
  | pair _ _ _ _ _ offset => if fitsPair offset then none else some (.pairOffset offset)
  | branchIfBit _ bit _ => if bit > 31 then some (.bitRange bit) else none
  | _ => none

/-- A fault of an instruction that is appended all the same. -/
def immediateFault? : Instr τ → Option Fault
  | arith op _ _ _ imm => if fitsImm12 imm then none else some (.immediate (arithName op) imm)
  | loadByte _ _ imm => if fitsImm12 imm then none else some (.immediate (text "ldrb") imm)
  | storeByte _ _ imm => if fitsImm12 imm then none else some (.immediate (text "strb") imm)
  | _ => none

end Instr

namespace Assembler

/-- The size of the code so far in bytes. -/
def size (a : Assembler) : Nat := 4 * a.words.size

def fail (a : Assembler) (f : Fault) : Assembler :=
  if a.fault.isNone then { a with fault := some f } else a

def failIf (a : Assembler) : Option Fault → Assembler
  | none => a
  | some f => a.fail f

/-- Appends a word as it is. -/
def raw (a : Assembler) (word : UInt32) (text : Thunk Text) : Assembler :=
  { a with words := a.words.push word, texts := a.texts.push text }

/-- The label that is made next. -/
def nextLabel (a : Assembler) : Label := Int64.ofNat a.labels.size

/-- Makes a label, not bound yet. -/
def addLabel (a : Assembler) : Assembler := { a with labels := a.labels.push none }

/-- The label has been made. -/
def knows (a : Assembler) (l : Label) : Bool := 0 ≤ l && l.toNatClampNeg < a.labels.size

/-- The position of a label, if it is bound. -/
def position? (a : Assembler) (l : Label) : Option Nat :=
  if 0 ≤ l then a.labels.getD l.toNatClampNeg none else none

/-- Binds a label to the position of the next instruction. -/
def bind (a : Assembler) (l : Label) : Assembler :=
  if a.knows l then
    if (a.position? l).isSome then a.fail (.boundTwice l)
    else { a with labels := a.labels.setIfInBounds l.toNatClampNeg (some a.words.size) }
  else a.fail (.bindUnknown l)

def emit (a : Assembler) (i : Instr Label) : Assembler :=
  match i.refusal? with
  | some f => a.fail f
  | none =>
    match i.target? with
    | none => (a.failIf i.immediateFault?).raw i.word (i.toText labelName)
    | some l =>
      if a.knows l then
        let fixup : Fixup := ⟨a.words.size, l, i.field⟩
        { a with fixups := a.fixups.push fixup }.raw i.word (i.toText labelName)
      else a.fail (.branchUnknown l)

def emitAll (a : Assembler) (is : List (Instr Label)) : Assembler := is.foldl emit a

/-- The displacement that a fixup asks for. -/
def displacement (a : Assembler) (f : Fixup) : Except Fault Int :=
  match a.position? f.label with
  | none => .error (.neverBound f.label)
  | some target =>
    let d : Int := (target : Int) - (f.index : Int)
    if d < -f.field.reach ∨ f.field.reach ≤ d then .error (.outOfReach f.index f.label d)
    else .ok d

/-- Fills in one displacement. -/
def patch (a : Assembler) (f : Fixup) (d : Int) : Assembler :=
  { a with words := a.words.modify f.index (· ||| f.field.encode d) }

/-- Fills in the displacements up to the first that cannot be. -/
def patchAll (a : Assembler) : List Fixup → Assembler × Option Fault
  | [] => (a, none)
  | f :: rest =>
    match a.displacement f with
    | .ok d => (a.patch f d).patchAll rest
    | .error e => (a, some e)

/-- The four bytes of a word, the lowest first. -/
def wordBytes (w : UInt32) : Text :=
  [w.toUInt8, (w >>> 8).toUInt8, (w >>> 16).toUInt8, (w >>> 24).toUInt8]

def bytes (a : Assembler) : Text := a.words.toList.flatMap wordBytes

/-- Fills in every displacement; the code is complete unless a fault comes with it. -/
def finish (a : Assembler) : Assembler × Option Fault :=
  match a.fault with
  | some f => (a, some f)
  | none => a.patchAll a.fixups.toList

/-- The labels bound to each position of the code. -/
def labelsAt (a : Assembler) : Array (List Label) :=
  a.labels.zipIdx.foldr (fun (position, l) bound =>
    match position with
    | none => bound
    | some i => bound.modify i (Int64.ofNat l :: ·)) (Array.replicate a.words.size [])

/-- The instructions so far. The words of branches are final once finished. -/
def listing (a : Assembler) : List Line :=
  let bound := a.labelsAt
  (List.range a.words.size).map fun i =>
    { offset := Int64.ofNat (4 * i)
      word := a.words.getD i 0
      text := (a.texts[i]?.map Thunk.get).getD []
      labels := bound.getD i [] }

end Assembler

end TapeLang.A64
