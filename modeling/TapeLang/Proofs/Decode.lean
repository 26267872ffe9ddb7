import Mathlib.Algebra.Group.Int.Defs
import Mathlib.Algebra.Group.Nat.Defs
import TapeLang.A64.Assembler

namespace TapeLang.A64

/-- The field of a word that starts at bit `low` and is `count` bits wide. -/
def bits (w : UInt32) (low count : Nat) : Nat := w.toNat / 2 ^ low % 2 ^ count

def regAt (w : UInt32) (low : Nat) : Reg := UInt8.ofNat (bits w low 5)

/-- A field of `count` bits as a signed number. -/
def signed (count n : Nat) : Int := if n < 2 ^ (count - 1) then n else (n : Int) - 2 ^ count

/-- The displacement of a branch that keeps it above its register. -/
def near (w : UInt32) (count : Nat) : Int := signed count (bits w 5 count)

def readArith (op : Arith) (wide : Bool) (w : UInt32) : Option (Instr Int) :=
  if bits w 22 2 = 0 then
    some (.arith op wide (regAt w 0) (regAt w 5) (Int64.ofNat (bits w 10 12)))
  else none

def readPair (mode : PairMode) (w : UInt32) : Instr Int :=
  .pair (bits w 22 1 == 1) mode (regAt w 0) (regAt w 10) (regAt w 5)
    (Int64.ofInt (8 * signed 7 (bits w 15 7)))

/-- The instruction of a word, by its top byte. Moves, comparisons and copies of the stack pointer
are the forms of other instructions that they are names for. -/
def decode (w : UInt32) : Option (Instr Int) :=
  match bits w 24 8 with
  | 0x11 => readArith .add false w
  | 0x51 => readArith .sub false w
  | 0x91 => readArith .add true w
  | 0xD1 => readArith .sub true w
  | 0xAA =>
    if bits w 21 3 = 0 ∧ bits w 5 11 = 31 then some (.mov (regAt w 0) (regAt w 16)) else none
  | 0xCB =>
    if bits w 21 3 = 0 ∧ bits w 10 6 = 0 then
      some (.subReg (regAt w 0) (regAt w 5) (regAt w 16))
    else none
  | 0xEB =>
    if bits w 21 3 = 0 ∧ bits w 10 6 = 0 ∧ bits w 0 5 = 31 then
      some (.cmp (regAt w 5) (regAt w 16))
    else none
  | 0x39 =>
    if bits w 22 2 = 1 then
      some (.loadByte (regAt w 0) (regAt w 5) (Int64.ofNat (bits w 10 12)))
    else if bits w 22 2 = 0 then
      some (.storeByte (regAt w 0) (regAt w 5) (Int64.ofNat (bits w 10 12)))
    else none
  | 0xA8 => if bits w 23 1 = 1 then some (readPair .postIndex w) else none
  | 0xA9 => some (readPair (if bits w 23 1 = 1 then .preIndex else .offset) w)
  | 0xD6 =>
    if bits w 10 14 = 0xFC0 ∧ bits w 0 5 = 0 then some (.call (regAt w 5))
    else if w = 0xD65F03C0 then some .ret
    else none
  | 0xD5 => if w = 0xD503201F then some .nop else none
  | 0x14 => some (.branch (signed 26 (bits w 0 26)))
  | 0x15 => some (.branch (signed 26 (bits w 0 26)))
  | 0x16 => some (.branch (signed 26 (bits w 0 26)))
  | 0x17 => some (.branch (signed 26 (bits w 0 26)))
  | 0x34 => some (.branchIfZero (regAt w 0) (near w 19))
  | 0x35 => some (.branchIfNotZero (regAt w 0) (near w 19))
  | 0x54 => if bits w 4 1 = 0 then some (.branchIf (UInt8.ofNat (bits w 0 4)) (near w 19)) else none
  | 0x37 => some (.branchIfBit (regAt w 0) (bits w 19 5) (near w 14))
  | _ => none

namespace Instr

variable {τ : Type}

/-- The instruction as it is read back, with the displacement of its target. -/
def link (f : τ → Int) : Instr τ → Instr Int
  | arith op wide rd rn imm => arith op wide rd rn imm
  | movFromSp rd => arith .add true rd 31 0
  | mov rd rm => mov rd rm
  | subReg rd rn rm => subReg rd rn rm
  | cmp rn rm => cmp rn rm
  | loadByte rt rn imm => loadByte rt rn imm
  | storeByte rt rn imm => storeByte rt rn imm
  | pair load mode rt rt2 rn offset => pair load mode rt rt2 rn offset
  | call rn => call rn
  | ret => ret
  | nop => nop
  | branch t => branch (f t)
  | branchIfZero rt t => branchIfZero rt (f t)
  | branchIfNotZero rt t => branchIfNotZero rt (f t)
  | branchIf cond t => branchIf cond (f t)
  | branchIfBit rt bit t => branchIfBit rt bit (f t)

/-- All register numbers have five bits, and the condition four. -/
def Numbered : Instr τ → Prop
  | arith _ _ rd rn _ => rd < 32 ∧ rn < 32
  | movFromSp rd => rd < 32
  | mov rd rm => rd < 32 ∧ rm < 32
  | subReg rd rn rm => rd < 32 ∧ rn < 32 ∧ rm < 32
  | cmp rn rm => rn < 32 ∧ rm < 32
  | loadByte rt rn _ => rt < 32 ∧ rn < 32
  | storeByte rt rn _ => rt < 32 ∧ rn < 32
  | pair _ _ rt rt2 rn _ => rt < 32 ∧ rt2 < 32 ∧ rn < 32
  | call rn => rn < 32
  | ret => True
  | nop => True
  | branch _ => True
  | branchIfZero rt _ => rt < 32
  | branchIfNotZero rt _ => rt < 32
  | branchIf cond _ => cond < 16
  | branchIfBit rt _ _ => rt < 32

end Instr

/-- Bits above and below a boundary do not meet, so joining them is adding them. -/
theorem toNat_or_low {a b : UInt32} (k : Nat) (ha : a.toNat % 2 ^ k = 0) (hb : b.toNat < 2 ^ k) :
    (a ||| b).toNat = a.toNat + b.toNat := by
  have hd : a.toNat = 2 ^ k * (a.toNat / 2 ^ k) := by
    rw [Nat.mul_div_cancel' (Nat.dvd_of_mod_eq_zero ha)]
  rw [UInt32.toNat_or, hd]
  exact (Nat.two_pow_add_eq_or_of_lt hb _).symm

theorem toNat_place {r : UInt8} (h : r < 32) (shift : UInt32) (hs : shift.toNat ≤ 19) :
    (place r shift).toNat = r.toNat * 2 ^ shift.toNat := by
  have hr : r.toNat < 32 := h
  have hp : 2 ^ shift.toNat ≤ 2 ^ 19 := Nat.pow_le_pow_right (by decide) hs
  have hm : r.toNat * 2 ^ shift.toNat ≤ 31 * 2 ^ 19 := Nat.mul_le_mul (by omega) hp
  rw [place, UInt32.toNat_shiftLeft, Nat.mod_eq_of_lt (show shift.toNat < 32 by omega),
    Nat.shiftLeft_eq, UInt8.toNat_toUInt32, Nat.mod_eq_of_lt (by omega)]

theorem toNat_lt_of_fits {imm : Int64} (h : fitsImm12 imm = true) : imm.toNatClampNeg < 4096 := by
  simp only [fitsImm12, Bool.and_eq_true, decide_eq_true_eq] at h
  have := Int64.le_iff_toInt_le.mp h.2
  rw [show maxImm12.toInt = 4095 from rfl] at this
  simp only [Int64.toNatClampNeg]
  omega

theorem ofNat_of_fits {imm : Int64} (h : fitsImm12 imm = true) :
    Int64.ofNat imm.toNatClampNeg = imm := by
  simp only [fitsImm12, Bool.and_eq_true, decide_eq_true_eq] at h
  have hz := Int64.le_iff_toInt_le.mp h.1
  rw [show (0 : Int64).toInt = 0 from rfl] at hz
  rw [← Int64.toInt_inj, Int64.toInt_ofNat_of_lt imm.toNatClampNeg_lt]
  simp only [Int64.toNatClampNeg]
  omega

theorem toNat_imm12 {imm : Int64} (h : fitsImm12 imm = true) :
    (imm12 imm).toNat = imm.toNatClampNeg * 1024 := by
  have hlt := toNat_lt_of_fits h
  have hw : imm.toUInt64.toNat = imm.toNatClampNeg := by
    rw [← ofNat_of_fits h, Int64.toUInt64_ofNat', UInt64.toNat_ofNat',
      Int64.toNatClampNeg_ofNat_of_lt (by omega)]
    omega
  rw [imm12, if_pos h, UInt32.toNat_shiftLeft, UInt64.toNat_toUInt32, hw,
    show (10 : UInt32).toNat % 32 = 10 from rfl, Nat.shiftLeft_eq]
  omega

section
variable {w : UInt32} {rd rn rm : Reg}

theorem regAt_eq {low : Nat} (h : bits w low 5 = rd.toNat) : regAt w low = rd := by
  rw [regAt, h]
  simp

/-- A word with an immediate and two registers, and its fields. -/
theorem read_immediate {imm : Int64} (base : UInt32) (top kind : Nat)
    (hbase : base.toNat = top * 2 ^ 24 + kind * 2 ^ 22) (htop : top < 256) (hkind : kind < 4)
    (hfit : fitsImm12 imm = true) (hn : rn < 32) (hd : rd < 32)
    (hw : w = base ||| imm12 imm ||| place rn 5 ||| rd.toUInt32) :
    bits w 24 8 = top ∧ bits w 22 2 = kind ∧ Int64.ofNat (bits w 10 12) = imm ∧
      regAt w 5 = rn ∧ regAt w 0 = rd := by
  have hi := toNat_imm12 hfit
  have hp := toNat_place hn 5 (by decide)
  have hlt := toNat_lt_of_fits hfit
  have hn' : rn.toNat < 32 := hn
  have hd' : rd.toNat < 32 := hd
  rw [show (5 : UInt32).toNat = 5 from rfl] at hp
  have h₁ := toNat_or_low (a := base) (b := imm12 imm) 22 (by omega) (by omega)
  have h₂ := toNat_or_low (a := base ||| imm12 imm) (b := place rn 5) 10 (by omega) (by omega)
  have h₃ := toNat_or_low (a := base ||| imm12 imm ||| place rn 5) (b := rd.toUInt32) 5
    (by omega) (by rw [UInt8.toNat_toUInt32]; omega)
  rw [← hw, UInt8.toNat_toUInt32, h₂, h₁, hi, hp, hbase] at h₃
  have himm : bits w 10 12 = imm.toNatClampNeg := by
    simp only [bits]
    omega
  refine ⟨?_, ?_, by rw [himm, ofNat_of_fits hfit], regAt_eq ?_, regAt_eq ?_⟩ <;>
    simp only [bits] <;> omega

/-- A word with three registers, and its fields. -/
theorem read_registers (base : UInt32) (top : Nat) (hbase : base.toNat = top * 2 ^ 24)
    (htop : top < 256) (hm : rm < 32) (hn : rn < 32) (hd : rd < 32)
    (hw : w = base ||| place rm 16 ||| place rn 5 ||| rd.toUInt32) :
    bits w 24 8 = top ∧ bits w 21 3 = 0 ∧ bits w 10 6 = 0 ∧ bits w 5 11 = rn.toNat ∧
      bits w 0 5 = rd.toNat ∧ regAt w 16 = rm ∧ regAt w 5 = rn ∧ regAt w 0 = rd := by
  have hpm := toNat_place hm 16 (by decide)
  have hpn := toNat_place hn 5 (by decide)
  have hm' : rm.toNat < 32 := hm
  have hn' : rn.toNat < 32 := hn
  have hd' : rd.toNat < 32 := hd
  rw [show (16 : UInt32).toNat = 16 from rfl] at hpm
  rw [show (5 : UInt32).toNat = 5 from rfl] at hpn
  have h₁ := toNat_or_low (a := base) (b := place rm 16) 21 (by omega) (by omega)
  have h₂ := toNat_or_low (a := base ||| place rm 16) (b := place rn 5) 10 (by omega) (by omega)
  have h₃ := toNat_or_low (a := base ||| place rm 16 ||| place rn 5) (b := rd.toUInt32) 5
    (by omega) (by rw [UInt8.toNat_toUInt32]; omega)
  rw [← hw, UInt8.toNat_toUInt32, h₂, h₁, hpm, hpn, hbase] at h₃
  refine ⟨?_, ?_, ?_, ?_, ?_, regAt_eq ?_, regAt_eq ?_, regAt_eq ?_⟩ <;> simp only [bits] <;> omega

/-- The value of a word with a register in its lowest bits and a displacement above it. -/
theorem toNat_displaced {d : UInt32} {r : UInt8} {x : Nat} (base : UInt32) (k : Nat)
    (hbase : base.toNat % 2 ^ (k + 5) = 0) (hr : r < 32) (hd : d.toNat = x * 2 ^ 5)
    (hx : x < 2 ^ k) : (base ||| r.toUInt32 ||| d).toNat = base.toNat + x * 2 ^ 5 + r.toNat := by
  have hr' : r.toNat < 32 := hr
  have hp : 2 ^ (k + 5) = 2 ^ k * 2 ^ 5 := Nat.pow_add 2 k 5
  have h₁ := toNat_or_low (a := base) (b := d) (k + 5) hbase (by omega)
  have hlow : (base ||| d).toNat % 2 ^ 5 = 0 := by
    rw [h₁, hd, ← Nat.div_add_mod base.toNat (2 ^ (k + 5)), hbase, hp]
    rw [Nat.mul_right_comm, Nat.add_zero, ← Nat.add_mul, Nat.mul_mod_left]
  have h₂ := toNat_or_low (a := base ||| d) (b := r.toUInt32) 5 hlow
    (by rw [UInt8.toNat_toUInt32]; omega)
  rw [UInt32.or_assoc, UInt32.or_comm r.toUInt32, ← UInt32.or_assoc, h₂, h₁, hd,
    UInt8.toNat_toUInt32]

end

/-- The value of a mask of low bits. -/
theorem toNat_mask {n : Nat} (hn : n < 32) :
    (((1 : UInt32) <<< n.toUInt32) - 1).toNat = 2 ^ n - 1 := by
  have hp : 2 ^ n < 2 ^ 32 := Nat.pow_lt_pow_right (by decide) hn
  have hcount : n.toUInt32.toNat % 32 = n := by
    simp only [Nat.toUInt32_eq, UInt32.toNat_ofNat']
    omega
  have hone : ((1 : UInt32) <<< n.toUInt32).toNat = 2 ^ n := by
    rw [UInt32.toNat_shiftLeft, hcount, show (1 : UInt32).toNat = 1 from rfl, Nat.one_shiftLeft,
      Nat.mod_eq_of_lt hp]
  have hpos : (1 : UInt32) ≤ (1 : UInt32) <<< n.toUInt32 := by
    rw [UInt32.le_iff_toNat_le, hone]
    exact Nat.pow_pos (by decide)
  rw [UInt32.toNat_sub_of_le _ _ hpos, hone]
  rfl

/-- The value of a displacement in its place. -/
theorem toNat_encode (n shift : Nat) (d : Int) (hn : n < 32) (hs : n + shift ≤ 32)
    (hs' : shift < 32) :
    (Field.encode ⟨n, shift⟩ d).toNat = (d % 2 ^ n).toNat * 2 ^ shift := by
  have hdvd : (2 ^ n : Int) ∣ 2 ^ 32 := by
    exact_mod_cast Nat.pow_dvd_pow 2 (show n ≤ 32 by omega)
  have hword : ((UInt32.ofInt d).toNat : Int) = d % 2 ^ 32 := by
    rw [UInt32.ofInt, UInt32.toNat_ofNat']
    omega
  have hcut : (UInt32.ofInt d).toNat % 2 ^ n = (d % 2 ^ n).toNat := by
    have h : (((UInt32.ofInt d).toNat % 2 ^ n : Nat) : Int) = d % 2 ^ n := by
      rw [Int.natCast_emod, hword, Int.natCast_pow]
      exact Int.emod_emod_of_dvd d hdvd
    rw [← h, Int.toNat_natCast]
  have hlt : (d % 2 ^ n).toNat < 2 ^ n := by
    rw [← hcut]
    exact Nat.mod_lt _ (Nat.pow_pos (by decide))
  have hshift : shift.toUInt32.toNat % 32 = shift := by
    simp only [Nat.toUInt32_eq, UInt32.toNat_ofNat']
    omega
  have hfit : (d % 2 ^ n).toNat * 2 ^ shift < 2 ^ 32 :=
    calc (d % 2 ^ n).toNat * 2 ^ shift < 2 ^ n * 2 ^ shift :=
          Nat.mul_lt_mul_of_pos_right hlt (Nat.pow_pos (by decide))
      _ = 2 ^ (n + shift) := (Nat.pow_add 2 n shift).symm
      _ ≤ 2 ^ 32 := Nat.pow_le_pow_right (by decide) hs
  rw [Field.encode, UInt32.toNat_shiftLeft, UInt32.toNat_and, toNat_mask hn,
    Nat.and_two_pow_sub_one_eq_mod, hcut, hshift, Nat.shiftLeft_eq, Nat.mod_eq_of_lt hfit]

/-- A number within reach is read back from its low bits. -/
theorem signed_emod {n : Nat} {d : Int} (hn : 0 < n) (hlow : -2 ^ (n - 1) ≤ d)
    (hhigh : d < 2 ^ (n - 1)) : signed n (d % 2 ^ n).toNat = d := by
  obtain ⟨m, rfl⟩ : ∃ m, n = m + 1 := ⟨n - 1, by omega⟩
  have hp : (2 : Int) ^ (m + 1) = 2 * 2 ^ m := by rw [Int.pow_succ, Int.mul_comm]
  have hpn : (2 : Nat) ^ (m + 1) = 2 * 2 ^ m := by rw [Nat.pow_succ, Nat.mul_comm]
  have hcast : ((2 ^ m : Nat) : Int) = 2 ^ m := by exact_mod_cast rfl
  rw [Nat.add_sub_cancel] at hlow hhigh
  rw [signed, Nat.add_sub_cancel]
  by_cases hneg : d < 0
  · have hmod : d % 2 ^ (m + 1) = d + 2 ^ (m + 1) := by
      rw [← Int.add_emod_right, Int.emod_eq_of_lt (by omega) (by omega)]
    rw [hmod, if_neg (by omega)]
    omega
  · rw [Int.emod_eq_of_lt (by omega) (by omega), if_pos (by omega)]
    omega

/-- The displacement lies in the reach of a field. -/
def Field.Reaches (f : Field) (d : Int) : Prop := -f.reach ≤ d ∧ d < f.reach

/-- A word with a register and a displacement above it, and its fields. -/
theorem read_near {w : UInt32} {r : UInt8} {d : Int} (base : UInt32) (top : Nat)
    (hbase : base.toNat = top * 2 ^ 24) (htop : top < 256) (hr : r < 32)
    (hd : Field.Reaches ⟨19, 5⟩ d) (hw : w = base ||| r.toUInt32 ||| Field.encode ⟨19, 5⟩ d) :
    bits w 24 8 = top ∧ bits w 0 5 = r.toNat ∧ near w 19 = d := by
  have hr' : r.toNat < 32 := hr
  have he := toNat_encode 19 5 d (by decide) (by decide) (by decide)
  have hx : (d % 2 ^ 19).toNat < 2 ^ 19 := by omega
  have h := toNat_displaced base 19 (by omega) hr he hx
  rw [← hw, hbase] at h
  have hfield : bits w 5 19 = (d % 2 ^ 19).toNat := by
    simp only [bits]
    omega
  refine ⟨?_, ?_, by rw [near, hfield, signed_emod (by decide) hd.1 hd.2]⟩ <;>
    simp only [bits] <;> omega

/-- A word with a displacement only, and its fields. The displacement reaches into the top byte. -/
theorem read_far {w : UInt32} {d : Int} (hd : Field.Reaches ⟨26, 0⟩ d)
    (hw : w = 0x14000000 ||| Field.encode ⟨26, 0⟩ d) :
    (bits w 24 8 = 0x14 ∨ bits w 24 8 = 0x15 ∨ bits w 24 8 = 0x16 ∨ bits w 24 8 = 0x17) ∧
      signed 26 (bits w 0 26) = d := by
  have he := toNat_encode 26 0 d (by decide) (by decide) (by decide)
  have h := toNat_or_low (a := 0x14000000) (b := Field.encode ⟨26, 0⟩ d) 26 (by decide) (by omega)
  rw [← hw, he, show (0x14000000 : UInt32).toNat = 0x14000000 from rfl] at h
  have hfield : bits w 0 26 = (d % 2 ^ 26).toNat := by
    simp only [bits]
    omega
  refine ⟨?_, by rw [hfield, signed_emod (by decide) hd.1 hd.2]⟩
  simp only [bits]
  omega

theorem toNat_bit {bit : Nat} (h : bit ≤ 31) : (place bit.toUInt8 19).toNat = bit * 2 ^ 19 := by
  have hb : bit.toUInt8.toNat = bit := by
    rw [Nat.toUInt8_eq, UInt8.toNat_ofNat']
    omega
  have hlt : bit.toUInt8 < 32 := by
    rw [UInt8.lt_iff_toNat_lt, hb]
    exact Nat.lt_succ_of_le h
  rw [toNat_place hlt 19 (by decide), hb]
  rfl

/-- A word with a register, a bit number and a displacement between them, and its fields. -/
theorem read_bit {w : UInt32} {r : UInt8} {bit : Nat} {d : Int} (hr : r < 32) (hbit : bit ≤ 31)
    (hd : Field.Reaches ⟨14, 5⟩ d)
    (hw : w = 0x37000000 ||| place bit.toUInt8 19 ||| r.toUInt32 ||| Field.encode ⟨14, 5⟩ d) :
    bits w 24 8 = 0x37 ∧ bits w 0 5 = r.toNat ∧ bits w 19 5 = bit ∧ near w 14 = d := by
  have hr' : r.toNat < 32 := hr
  have hb := toNat_bit hbit
  have he := toNat_encode 14 5 d (by decide) (by decide) (by decide)
  have hbase := toNat_or_low (a := 0x37000000) (b := place bit.toUInt8 19) 24 (by decide)
    (by omega)
  rw [hb, show (0x37000000 : UInt32).toNat = 0x37 * 2 ^ 24 from rfl] at hbase
  have h := toNat_displaced (0x37000000 ||| place bit.toUInt8 19) 14 (by omega) hr he
    (by omega)
  rw [← hw, hbase] at h
  have hfield : bits w 5 14 = (d % 2 ^ 14).toNat := by
    simp only [bits]
    omega
  refine ⟨?_, ?_, ?_, by rw [near, hfield, signed_emod (by decide) hd.1 hd.2]⟩ <;>
    simp only [bits] <;> omega

/-- The eighth of a pair's offset fits in seven bits. -/
theorem eighth_of_fits {offset : Int64} (h : fitsPair offset = true) :
    ∃ q : Int, -64 ≤ q ∧ q < 64 ∧ offset = Int64.ofInt (8 * q) ∧ offset / 8 = Int64.ofInt q := by
  simp only [fitsPair, Bool.and_eq_true, beq_iff_eq, decide_eq_true_eq] at h
  obtain ⟨⟨hmod, hlow⟩, hhigh⟩ := h
  have hlow' := Int64.le_iff_toInt_le.mp hlow
  have hhigh' := Int64.le_iff_toInt_le.mp hhigh
  rw [show (-512 : Int64).toInt = -512 from rfl] at hlow'
  rw [show (504 : Int64).toInt = 504 from rfl] at hhigh'
  have hdvd : (8 : Int) ∣ offset.toInt := by
    have h := congrArg Int64.toInt hmod
    rw [Int64.toInt_mod, show (8 : Int64).toInt = 8 from rfl,
      show (0 : Int64).toInt = 0 from rfl] at h
    exact Int.dvd_of_tmod_eq_zero h
  obtain ⟨q, hq⟩ := hdvd
  refine ⟨q, by omega, by omega, by rw [← hq, Int64.ofInt_toInt], ?_⟩
  rw [← Int64.toInt_inj, Int64.toInt_div, hq, show (8 : Int64).toInt = 8 from rfl,
    Int.mul_tdiv_cancel_left q (by decide), Int64.toInt_ofInt]

theorem toNat_imm7 {offset : Int64} {q : Int} (h : offset / 8 = Int64.ofInt q) :
    (imm7 offset).toNat = (q % 2 ^ 7).toNat * 2 ^ 15 := by
  have hq : ((Int64.ofInt q).toUInt64.toNat : Int) = q % 2 ^ 64 := by
    rw [← Int64.toNat_toBitVec, Int64.toBitVec_ofInt, BitVec.toNat_ofInt]
    omega
  rw [imm7, h, UInt32.toNat_shiftLeft, UInt32.toNat_and,
    UInt64.toNat_toUInt32, show (0x7F : UInt32).toNat = 2 ^ 7 - 1 from rfl,
    Nat.and_two_pow_sub_one_eq_mod, show (15 : UInt32).toNat % 32 = 15 from rfl, Nat.shiftLeft_eq]
  omega

/-- The top byte of a pair's word, and the bit below it. -/
def PairMode.top : PairMode → Nat
  | .offset => 0xA9
  | .preIndex => 0xA9
  | .postIndex => 0xA8

def PairMode.high : PairMode → Nat
  | .offset => 0
  | .preIndex => 1
  | .postIndex => 1

/-- A word with a pair of registers, and its fields. -/
theorem read_pair {w : UInt32} {load : Bool} {mode : PairMode} {rt rt2 rn : Reg} {offset : Int64}
    (hfit : fitsPair offset = true) (ht : rt < 32) (ht2 : rt2 < 32) (hn : rn < 32)
    (hw : w = Instr.pairBase mode ||| (if load then 0x00400000 else 0) ||| imm7 offset |||
      place rt2 10 ||| place rn 5 ||| rt.toUInt32) :
    bits w 24 8 = mode.top ∧ bits w 23 1 = mode.high ∧
      readPair mode w = .pair load mode rt rt2 rn offset := by
  have hbase : (Instr.pairBase mode).toNat = mode.top * 2 ^ 24 + mode.high * 2 ^ 23 := by
    cases mode <;> rfl
  have htop : mode.top < 256 ∧ mode.high < 2 := by cases mode <;> decide
  generalize mode.top = top at *
  generalize mode.high = high at *
  generalize Instr.pairBase mode = base at *
  obtain ⟨q, hlow, hupp, hoffset, heighth⟩ := eighth_of_fits hfit
  have hi := toNat_imm7 heighth
  have hp2 := toNat_place ht2 10 (by decide)
  have hpn := toNat_place hn 5 (by decide)
  rw [show (10 : UInt32).toNat = 10 from rfl] at hp2
  rw [show (5 : UInt32).toNat = 5 from rfl] at hpn
  have ht' : rt.toNat < 32 := ht
  have ht2' : rt2.toNat < 32 := ht2
  have hn' : rn.toNat < 32 := hn
  have hl : (if load then (0x00400000 : UInt32) else 0).toNat = load.toNat * 2 ^ 22 := by
    cases load <;> rfl
  have hload : load.toNat < 2 := load.toNat_lt
  have h₁ := toNat_or_low (a := base) (b := if load then 0x00400000 else 0) 23 (by omega)
    (by omega)
  have h₂ := toNat_or_low (a := base ||| if load then 0x00400000 else 0) (b := imm7 offset) 22
    (by omega) (by omega)
  have h₃ := toNat_or_low (b := place rt2 10) 15 (by omega) (by omega) (a :=
    base ||| (if load then 0x00400000 else 0) ||| imm7 offset)
  have h₄ := toNat_or_low (b := place rn 5) 10 (by omega) (by omega) (a :=
    base ||| (if load then 0x00400000 else 0) ||| imm7 offset ||| place rt2 10)
  have h₅ := toNat_or_low (b := rt.toUInt32) 5 (by omega)
    (by rw [UInt8.toNat_toUInt32]; omega) (a :=
    base ||| (if load then 0x00400000 else 0) ||| imm7 offset ||| place rt2 10 ||| place rn 5)
  rw [← hw, UInt8.toNat_toUInt32, h₄, h₃, h₂, h₁, hl, hi, hp2, hpn, hbase] at h₅
  have hq : bits w 15 7 = (q % 2 ^ 7).toNat := by
    simp only [bits]
    omega
  have hflag : bits w 22 1 = load.toNat := by
    simp only [bits]
    omega
  have hregs : regAt w 0 = rt ∧ regAt w 10 = rt2 ∧ regAt w 5 = rn := by
    refine ⟨regAt_eq ?_, regAt_eq ?_, regAt_eq ?_⟩ <;> simp only [bits] <;> omega
  refine ⟨?_, ?_, ?_⟩
  · simp only [bits]
    omega
  · simp only [bits]
    omega
  · rw [readPair, hq, signed_emod (by decide) hlow hupp, ← hoffset, hflag, hregs.1, hregs.2.1,
      hregs.2.2]
    cases load <;> rfl

namespace Instr

variable {τ : Type}

theorem decode_pair {load : Bool} {mode : PairMode} {rt rt2 rn : Reg} {offset : Int64}
    (hn : (pair load mode rt rt2 rn offset : Instr τ).Numbered) (hfit : fitsPair offset = true) :
    decode (pair load mode rt rt2 rn offset : Instr τ).word =
      some (.pair load mode rt rt2 rn offset) := by
  obtain ⟨ht, ht2, hrn⟩ := hn
  have hw : (pair load mode rt rt2 rn offset : Instr τ).word = _ := rfl
  obtain ⟨htop, hhigh, hread⟩ := read_pair hfit ht ht2 hrn hw
  rw [decode, htop, hhigh]
  cases mode <;> exact congrArg some hread

theorem decode_arith {op : Arith} {wide : Bool} {rd rn : Reg} {imm : Int64} (hd : rd < 32)
    (hn : rn < 32) (hfit : fitsImm12 imm = true) :
    decode (arith op wide rd rn imm : Instr τ).word = some (.arith op wide rd rn imm) := by
  have hw : (arith op wide rd rn imm : Instr τ).word = _ := rfl
  cases op <;> cases wide
  case' add.false =>
    have h := read_immediate 0x11000000 0x11 0 rfl (by decide) (by decide) hfit hn hd hw
  case' add.true =>
    have h := read_immediate 0x91000000 0x91 0 rfl (by decide) (by decide) hfit hn hd hw
  case' sub.false =>
    have h := read_immediate 0x51000000 0x51 0 rfl (by decide) (by decide) hfit hn hd hw
  case' sub.true =>
    have h := read_immediate 0xD1000000 0xD1 0 rfl (by decide) (by decide) hfit hn hd hw
  all_goals
    obtain ⟨htop, hkind, himm, hrn, hrd⟩ := h
    rw [decode, htop]
    simp only [readArith, hkind, himm, hrn, hrd]
    rfl

/-- The word of an instruction that is not a branch reads as that instruction. -/
theorem decode_word {i : Instr τ} (f : τ → Int) (ht : i.target? = none) (hn : i.Numbered)
    (hr : i.refusal? = none) (hi : i.immediateFault? = none) : decode i.word = some (i.link f) := by
  cases i with
  | arith op wide rd rn imm => exact decode_arith hn.1 hn.2 (by simpa [immediateFault?] using hi)
  | movFromSp rd =>
    have hw : (movFromSp rd : Instr τ).word = (arith .add true rd 31 0 : Instr τ).word := rfl
    rw [hw]
    exact decode_arith hn (by decide) (by decide)
  | mov rd rm =>
    obtain ⟨hd, hm⟩ := hn
    have hw : (mov rd rm : Instr τ).word =
        0xAA000000 ||| place rm 16 ||| place 31 5 ||| rd.toUInt32 := by
      rw [word, show (0xAA0003E0 : UInt32) = 0xAA000000 ||| place 31 5 from rfl, UInt32.or_assoc
        0xAA000000, UInt32.or_comm (place 31 5), ← UInt32.or_assoc]
    obtain ⟨htop, hkind, -, hzero, -, hrm, -, hrd⟩ :=
      read_registers 0xAA000000 0xAA rfl (by decide) hm (show (31 : Reg) < 32 by decide) hd hw
    rw [decode, htop]
    simp only [hkind, hzero, hrm, hrd]
    rfl
  | subReg rd rn rm =>
    obtain ⟨hd, hn, hm⟩ := hn
    obtain ⟨htop, hkind, hshift, -, -, hrm, hrn, hrd⟩ :=
      read_registers 0xCB000000 0xCB rfl (by decide) hm hn hd rfl
    rw [decode, word, htop]
    simp only [hkind, hshift, hrm, hrn, hrd]
    rfl
  | cmp rn rm =>
    obtain ⟨hn, hm⟩ := hn
    have hw : (cmp rn rm : Instr τ).word =
        0xEB000000 ||| place rm 16 ||| place rn 5 ||| (31 : Reg).toUInt32 := rfl
    obtain ⟨htop, hkind, hshift, -, hzero, hrm, hrn, -⟩ :=
      read_registers 0xEB000000 0xEB rfl (by decide) hm hn (by decide) hw
    rw [decode, htop]
    simp only [hkind, hshift, hzero, hrm, hrn]
    rfl
  | loadByte rt rn imm =>
    obtain ⟨htop, hkind, himm, hrn, hrt⟩ := read_immediate 0x39400000 0x39 1 rfl (by decide)
      (by decide) (by simpa [immediateFault?] using hi) hn.2 hn.1 rfl
    rw [decode, word, htop]
    simp only [hkind, himm, hrn, hrt]
    rfl
  | storeByte rt rn imm =>
    obtain ⟨htop, hkind, himm, hrn, hrt⟩ := read_immediate 0x39000000 0x39 0 rfl (by decide)
      (by decide) (by simpa [immediateFault?] using hi) hn.2 hn.1 rfl
    rw [decode, word, htop]
    simp only [hkind, himm, hrn, hrt]
    rfl
  | pair load mode rt rt2 rn offset => exact decode_pair hn (by simpa [refusal?] using hr)
  | call rn =>
    have hp := toNat_place hn 5 (by decide)
    have hn' : rn.toNat < 32 := hn
    rw [show (5 : UInt32).toNat = 5 from rfl] at hp
    have hw := toNat_or_low (a := 0xD63F0000) (b := place rn 5) 10 (by decide) (by omega)
    rw [show (0xD63F0000 : UInt32).toNat = 0xD63F0000 from rfl, hp] at hw
    have hfields : bits (0xD63F0000 ||| place rn 5) 24 8 = 0xD6 ∧
        bits (0xD63F0000 ||| place rn 5) 10 14 = 0xFC0 ∧
        bits (0xD63F0000 ||| place rn 5) 0 5 = 0 := by
      simp only [bits]
      omega
    have hreg : regAt (0xD63F0000 ||| place rn 5) 5 = rn := regAt_eq (by simp only [bits]; omega)
    rw [decode, word, hfields.1]
    simp only [hfields, hreg]
    rfl
  | ret => exact (by decide : decode 0xD65F03C0 = some .ret)
  | nop => exact (by decide : decode 0xD503201F = some .nop)
  | branch t => cases ht
  | branchIfZero rt t => cases ht
  | branchIfNotZero rt t => cases ht
  | branchIf cond t => cases ht
  | branchIfBit rt bit t => cases ht

/-- The word of a branch with its displacement filled in reads as that branch. -/
theorem decode_branch {i : Instr τ} {t : τ} {d : Int} (f : τ → Int) (hf : f t = d)
    (ht : i.target? = some t) (hn : i.Numbered) (hr : i.refusal? = none)
    (hd : i.field.Reaches d) : decode (i.word ||| i.field.encode d) = some (i.link f) := by
  cases i with
  | branch t' =>
    obtain rfl : t' = t := Option.some.inj ht
    obtain ⟨htop, hfar⟩ := read_far hd rfl
    change decode (0x14000000 ||| Field.encode ⟨26, 0⟩ d) = some (.branch (f t'))
    rw [decode, hf]
    rcases htop with htop | htop | htop | htop <;> rw [htop] <;> simp only [hfar]
  | branchIfZero rt t' =>
    obtain rfl : t' = t := Option.some.inj ht
    obtain ⟨htop, hreg, hnear⟩ := read_near 0x34000000 0x34 rfl (by decide) hn hd rfl
    change decode (0x34000000 ||| rt.toUInt32 ||| Field.encode ⟨19, 5⟩ d) = _
    rw [decode, htop]
    simp only [regAt_eq hreg, hnear, link, hf]
  | branchIfNotZero rt t' =>
    obtain rfl : t' = t := Option.some.inj ht
    obtain ⟨htop, hreg, hnear⟩ := read_near 0x35000000 0x35 rfl (by decide) hn hd rfl
    change decode (0x35000000 ||| rt.toUInt32 ||| Field.encode ⟨19, 5⟩ d) = _
    rw [decode, htop]
    simp only [regAt_eq hreg, hnear, link, hf]
  | branchIf cond t' =>
    obtain rfl : t' = t := Option.some.inj ht
    have hc : cond.toNat < 16 := hn
    obtain ⟨htop, hcond, hnear⟩ := read_near 0x54000000 0x54 rfl (by decide)
      (UInt8.lt_trans hn (by decide)) hd rfl
    change decode (0x54000000 ||| cond.toUInt32 ||| Field.encode ⟨19, 5⟩ d) = _
    generalize 0x54000000 ||| cond.toUInt32 ||| Field.encode ⟨19, 5⟩ d = w at *
    have hsplit : bits w 4 1 = 0 ∧ bits w 0 4 = cond.toNat := by
      simp only [bits] at hcond ⊢
      omega
    rw [decode, htop]
    simp only [hsplit, hnear, link, hf, UInt8.ofNat_toNat, ↓reduceIte]
  | branchIfBit rt bit t' =>
    obtain rfl : t' = t := Option.some.inj ht
    have hbit : bit ≤ 31 := by simpa [refusal?] using hr
    obtain ⟨htop, hreg, hbit', hnear⟩ := read_bit hn hbit hd rfl
    change decode (0x37000000 ||| place bit.toUInt8 19 ||| rt.toUInt32 ||| Field.encode ⟨14, 5⟩ d)
      = _
    rw [decode, htop]
    simp only [regAt_eq hreg, hbit', hnear, link, hf]
  | arith => cases ht
  | movFromSp => cases ht
  | mov => cases ht
  | subReg => cases ht
  | cmp => cases ht
  | loadByte => cases ht
  | storeByte => cases ht
  | pair => cases ht
  | call => cases ht
  | ret => cases ht
  | nop => cases ht

end Instr

end TapeLang.A64
