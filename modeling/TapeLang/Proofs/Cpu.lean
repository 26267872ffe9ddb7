import TapeLang.Proofs.Linking
import TapeLang.Proofs.Simulation

namespace TapeLang.A64

/-- The flags of a comparison: negative, zero, no borrow, signed overflow. -/
structure Flags where
  n : Bool
  z : Bool
  c : Bool
  v : Bool
deriving DecidableEq, Repr

/-- The flags that comparing `a` with `b` sets. -/
def Flags.compare (a b : UInt64) : Flags where
  n := (a - b).toInt64 < 0
  z := a == b
  c := b ≤ a
  v := (a - b).toInt64.toInt != a.toInt64.toInt - b.toInt64.toInt

/-- The condition with a number holds of the flags. -/
def Cond.holds (cond : Cond) (f : Flags) : Bool :=
  match cond.toNat with
  | 0 => f.z
  | 1 => !f.z
  | 2 => f.c
  | 3 => !f.c
  | 4 => f.n
  | 5 => !f.n
  | 6 => f.v
  | 7 => !f.v
  | 8 => f.c && !f.z
  | 9 => !(f.c && !f.z)
  | 10 => f.n == f.v
  | 11 => f.n != f.v
  | 12 => !f.z && f.n == f.v
  | 13 => !(!f.z && f.n == f.v)
  | _ => true

/-- A call of a host routine. -/
structure Call where
  target : UInt64
  x₀ : UInt64
  x₁ : UInt64
  result : UInt64
deriving DecidableEq, Repr

abbrev Memory := UInt64 → UInt8

namespace Memory

def set (m : Memory) (a : UInt64) (b : UInt8) : Memory := fun a' => if a' = a then b else m a'

@[simp] theorem set_self (m : Memory) (a : UInt64) : m.set a (m a) = m := by
  funext a'
  unfold set
  split
  · rename_i h
    rw [h]
  · rfl

/-- Byte number `i` of a word, the lowest first. -/
def byteOf (v : UInt64) (i : Nat) : UInt8 := UInt8.ofNat (v.toNat / 2 ^ (8 * i))

def write (m : Memory) (a v : UInt64) : Memory :=
  fun a' => if a' - a < 8 then byteOf v (a' - a).toNat else m a'

def read (m : Memory) (a : UInt64) : UInt64 :=
  UInt64.ofNat (
    (m a).toNat + 2 ^ 8 * (m (a + 1)).toNat + 2 ^ 16 * (m (a + 2)).toNat +
    2 ^ 24 * (m (a + 3)).toNat + 2 ^ 32 * (m (a + 4)).toNat + 2 ^ 40 * (m (a + 5)).toNat +
    2 ^ 48 * (m (a + 6)).toNat + 2 ^ 56 * (m (a + 7)).toNat)

theorem toNat_byteOf (v : UInt64) (i : Nat) :
    (byteOf v i).toNat = v.toNat / 2 ^ (8 * i) % 2 ^ 8 := by
  rw [byteOf, UInt8.toNat_ofNat']

/-- A word is the same where its bytes are. -/
theorem read_congr {m m' : Memory} {a : UInt64} (h : ∀ i < 8, m' (a + i) = m (a + i)) :
    m'.read a = m.read a := by
  have h₀ := h 0 (by decide)
  rw [UInt64.add_zero] at h₀
  simp only [read, h₀, h 1 (by decide), h 2 (by decide), h 3 (by decide), h 4 (by decide),
    h 5 (by decide), h 6 (by decide), h 7 (by decide)]

theorem read_write (m : Memory) (a v : UInt64) : (m.write a v).read a = v := by
  have hbyte : ∀ i : UInt64, i < 8 → (m.write a v) (a + i) = byteOf v i.toNat := by
    intro i hi
    have hsub : a + i - a = i := by grind
    rw [write, hsub, if_pos hi]
  have h₀ := hbyte 0 (by decide)
  rw [UInt64.add_zero] at h₀
  have hv := v.toNat_lt
  rw [← UInt64.toNat_inj]
  simp only [read, h₀, hbyte 1 (by decide), hbyte 2 (by decide), hbyte 3 (by decide),
    hbyte 4 (by decide), hbyte 5 (by decide), hbyte 6 (by decide), hbyte 7 (by decide),
    UInt64.toNat_ofNat', toNat_byteOf, UInt64.reduceToNat]
  omega

/-- A word is not changed by one written elsewhere. -/
theorem read_write_of_apart (m : Memory) {a b : UInt64} (v : UInt64)
    (h : ∀ i < 8, ¬ a + i - b < 8) : (m.write b v).read a = m.read a := by
  refine read_congr ?_
  intro i hi
  rw [write, if_neg (h i hi)]

end Memory

/-- The processor, with what lies outside it. -/
structure Cpu (σ : Type) where
  /-- The index of the next instruction in the code. -/
  pc : Int
  x : Reg → UInt64
  sp : UInt64
  flags : Flags
  memory : Memory
  world : σ
  /-- The calls made so far, in order. -/
  calls : List Call := []

/-- What the code's surroundings do: where it lies, and what the routine at an address does. -/
structure Host (σ : Type) where
  origin : UInt64
  routine : UInt64 → Cpu σ → Cpu σ

namespace Cpu

variable {σ : Type}

/-- Register `r`, with 31 the zero register. -/
def get (s : Cpu σ) (r : Reg) : UInt64 := if r = 31 then 0 else s.x r

/-- Register `r`, with 31 the stack pointer. -/
def getSp (s : Cpu σ) (r : Reg) : UInt64 := if r = 31 then s.sp else s.x r

def setX (s : Cpu σ) (r : Reg) (v : UInt64) : Cpu σ :=
  { s with x := fun r' => if r' = r then v else s.x r' }

def set (s : Cpu σ) (r : Reg) (v : UInt64) : Cpu σ := if r = 31 then s else s.setX r v

def setSp (s : Cpu σ) (r : Reg) (v : UInt64) : Cpu σ :=
  if r = 31 then { s with sp := v } else s.setX r v

def jump (s : Cpu σ) (d : Int) : Cpu σ := { s with pc := s.pc + d }

section
variable (s : Cpu σ) (r : Reg) (v : UInt64) (d : Int)

@[simp] theorem jump_pc : (s.jump d).pc = s.pc + d := rfl

@[simp] theorem jump_x : (s.jump d).x = s.x := rfl

@[simp] theorem jump_sp : (s.jump d).sp = s.sp := rfl

@[simp] theorem jump_flags : (s.jump d).flags = s.flags := rfl

@[simp] theorem jump_memory : (s.jump d).memory = s.memory := rfl

@[simp] theorem jump_world : (s.jump d).world = s.world := rfl

@[simp] theorem jump_calls : (s.jump d).calls = s.calls := rfl

@[simp] theorem setX_x (r' : Reg) : (s.setX r v).x r' = if r' = r then v else s.x r' := rfl

@[simp] theorem setX_pc : (s.setX r v).pc = s.pc := rfl

@[simp] theorem setX_sp : (s.setX r v).sp = s.sp := rfl

@[simp] theorem setX_flags : (s.setX r v).flags = s.flags := rfl

@[simp] theorem setX_memory : (s.setX r v).memory = s.memory := rfl

@[simp] theorem setX_world : (s.setX r v).world = s.world := rfl

@[simp] theorem setX_calls : (s.setX r v).calls = s.calls := rfl

@[simp] theorem set_pc : (s.set r v).pc = s.pc := by
  unfold set
  split <;> rfl

@[simp] theorem set_world : (s.set r v).world = s.world := by
  unfold set
  split <;> rfl

@[simp] theorem set_calls : (s.set r v).calls = s.calls := by
  unfold set
  split <;> rfl

@[simp] theorem setSp_pc : (s.setSp r v).pc = s.pc := by
  unfold setSp
  split <;> rfl

@[simp] theorem setSp_world : (s.setSp r v).world = s.world := by
  unfold setSp
  split <;> rfl

@[simp] theorem setSp_calls : (s.setSp r v).calls = s.calls := by
  unfold setSp
  split <;> rfl

end

/-- Where a pair is stored, from its base register. -/
def pairAddress (mode : PairMode) (base : UInt64) (offset : Int64) : UInt64 :=
  match mode with
  | .offset => base + offset.toUInt64
  | .preIndex => base + offset.toUInt64
  | .postIndex => base

/-- What a pair leaves in its base register. -/
def pairBack (s : Cpu σ) (mode : PairMode) (rn : Reg) (offset : Int64) : Cpu σ :=
  match mode with
  | .offset => s
  | .preIndex => s.setSp rn (s.getSp rn + offset.toUInt64)
  | .postIndex => s.setSp rn (s.getSp rn + offset.toUInt64)

@[simp] theorem pairBack_pc (s : Cpu σ) (mode : PairMode) (rn : Reg) (offset : Int64) :
    (s.pairBack mode rn offset).pc = s.pc := by
  cases mode <;> simp [pairBack]

@[simp] theorem pairBack_world (s : Cpu σ) (mode : PairMode) (rn : Reg) (offset : Int64) :
    (s.pairBack mode rn offset).world = s.world := by
  cases mode <;> simp [pairBack]

@[simp] theorem pairBack_calls (s : Cpu σ) (mode : PairMode) (rn : Reg) (offset : Int64) :
    (s.pairBack mode rn offset).calls = s.calls := by
  cases mode <;> simp [pairBack]

/-- A call of the routine at an address. It comes back to the instruction after the call. -/
def call (host : Host σ) (target : UInt64) (s : Cpu σ) : Cpu σ :=
  let back := host.routine target (s.setX 30 (host.origin + 4 * UInt64.ofInt (s.pc + 1)))
  { back with
    pc := s.pc + 1
    calls := s.calls ++ [⟨target, s.x 0, s.x 1, back.x 0⟩] }

/-- Performs an instruction; a return is not performed here. -/
def perform (host : Host σ) (i : Instr Int) (s : Cpu σ) : Cpu σ :=
  match i with
  | .arith .add true rd rn imm => (s.setSp rd (s.getSp rn + imm.toUInt64)).jump 1
  | .arith .sub true rd rn imm => (s.setSp rd (s.getSp rn - imm.toUInt64)).jump 1
  | .arith .add false rd rn imm =>
    (s.setSp rd ((s.getSp rn).toUInt32 + imm.toUInt64.toUInt32).toUInt64).jump 1
  | .arith .sub false rd rn imm =>
    (s.setSp rd ((s.getSp rn).toUInt32 - imm.toUInt64.toUInt32).toUInt64).jump 1
  | .movFromSp rd => (s.setSp rd s.sp).jump 1
  | .mov rd rm => (s.set rd (s.get rm)).jump 1
  | .subReg rd rn rm => (s.set rd (s.get rn - s.get rm)).jump 1
  | .cmp rn rm => { s with flags := Flags.compare (s.get rn) (s.get rm) }.jump 1
  | .loadByte rt rn imm =>
    (s.set rt (s.memory (s.getSp rn + imm.toUInt64)).toUInt64).jump 1
  | .storeByte rt rn imm =>
    { s with memory := s.memory.set (s.getSp rn + imm.toUInt64) (s.get rt).toUInt8 }.jump 1
  | .pair true mode rt rt2 rn offset =>
    let a := pairAddress mode (s.getSp rn) offset
    (((s.pairBack mode rn offset).set rt (s.memory.read a)).set rt2 (s.memory.read (a + 8))).jump 1
  | .pair false mode rt rt2 rn offset =>
    let a := pairAddress mode (s.getSp rn) offset
    { s.pairBack mode rn offset with
      memory := (s.memory.write a (s.get rt)).write (a + 8) (s.get rt2) }.jump 1
  | .call rn => s.call host (s.get rn)
  | .ret => s
  | .nop => s.jump 1
  | .branch d => s.jump d
  | .branchIfZero rt d => s.jump (if (s.get rt).toUInt32 = 0 then d else 1)
  | .branchIfNotZero rt d => s.jump (if (s.get rt).toUInt32 = 0 then 1 else d)
  | .branchIf cond d => s.jump (if cond.holds s.flags then d else 1)
  | .branchIfBit rt bit d => s.jump (if (s.get rt).toNat.testBit bit then d else 1)

/-- One step of the code. None once it returns, or where there is no instruction. -/
def next (host : Host σ) (code : Text) (s : Cpu σ) : Option (Cpu σ) :=
  match instrAt code s.pc with
  | none => none
  | some .ret => none
  | some i => some (s.perform host i)

theorem next_of_instr {host : Host σ} {code : Text} {s : Cpu σ} {i : Instr Int}
    (h : instrAt code s.pc = some i) (hi : i ≠ .ret) :
    s.next host code = some (s.perform host i) := by
  unfold next
  rw [h]
  cases i with
  | ret => exact absurd rfl hi
  | _ => rfl

/-- The code comes to its return in a state. -/
def Returns (host : Host σ) (code : Text) (s s' : Cpu σ) : Prop :=
  ∃ n, after (next host code) n s = some s' ∧ instrAt code s'.pc = some .ret

theorem next_of_ret {host : Host σ} {code : Text} {s : Cpu σ}
    (h : instrAt code s.pc = some .ret) : s.next host code = none := by
  rw [next, h]

theorem Returns.prepend {host : Host σ} {code : Text} {s s' s'' : Cpu σ} {n : Nat}
    (hs : after (next host code) n s = some s') (h : Returns host code s' s'') :
    Returns host code s s'' := by
  obtain ⟨m, hm, hret⟩ := h
  exact ⟨n + m, after_trans hs hm, hret⟩

/-- The code returns in at most one state. -/
theorem Returns.unique {host : Host σ} {code : Text} {s s' s'' : Cpu σ}
    (h : Returns host code s s') (h' : Returns host code s s'') : s' = s'' := by
  obtain ⟨n, hn, hret⟩ := h
  obtain ⟨m, hm, hret'⟩ := h'
  exact final_unique hn (next_of_ret hret) hm (next_of_ret hret')

end Cpu

end TapeLang.A64
