import TapeLang.Proofs.Cpu
import TapeLang.Proofs.Layout

namespace TapeLang.Native

open A64 Layout

variable {σ : Type}

/-- The address of a cell: the base and an index below the length. -/
def InTape (entry : Cpu σ) (a : UInt64) : Prop := ∃ i, i < entry.x 1 ∧ a = entry.x 0 + i

/-- An address in the frame. -/
def InFrame (entry : Cpu σ) (a : UInt64) : Prop := ∃ i, i < 80 ∧ a = entry.sp - 80 + i

/-- The host routines that the code is given: put, get and trap. -/
def routines (entry : Cpu σ) : List UInt64 := [entry.x 3, entry.x 4, entry.x 5]

/-- The instruction touches nothing but the tape and the frame, calls nothing but the routines, and
returns with the registers that a callee preserves as they were. -/
def Confined (entry s : Cpu σ) : Instr Int → Prop
  | .loadByte _ rn imm => InTape entry (s.getSp rn + imm.toUInt64)
  | .storeByte _ rn imm => InTape entry (s.getSp rn + imm.toUInt64)
  | .pair _ mode _ _ rn offset =>
    ∀ i < 16, InFrame entry (Cpu.pairAddress mode (s.getSp rn) offset + i)
  | .call rn => s.get rn ∈ routines entry
  | .ret => s.sp = entry.sp ∧ ∀ r, 19 ≤ r → r ≤ 30 → s.x r = entry.x r
  | _ => True

/-- The processor is at an instruction of the code, and the instruction is confined. -/
def Good (code : Text) (entry s : Cpu σ) : Prop :=
  ∃ i, instrAt code s.pc = some i ∧ Confined entry s i

/-- The routines keep the registers that a callee preserves, the stack pointer and the frame of
their caller. -/
structure Keeping (host : Host σ) (entry : Cpu σ) : Prop where
  regs : ∀ f ∈ routines entry, ∀ s, s.sp = entry.sp - 80 →
    ∀ r, 19 ≤ r → r ≤ 29 → (host.routine f s).x r = s.x r
  sp : ∀ f ∈ routines entry, ∀ s, s.sp = entry.sp - 80 → (host.routine f s).sp = s.sp
  frame : ∀ f ∈ routines entry, ∀ s, s.sp = entry.sp - 80 →
    ∀ a, InFrame entry a → (host.routine f s).memory a = s.memory a

/-- A call comes back with what its routine keeps. -/
theorem Keeping.call {host : Host σ} {entry : Cpu σ} (h : Keeping host entry) {f : UInt64}
    (hf : f ∈ routines entry) {s : Cpu σ} (hs : s.sp = entry.sp - 80) :
    (∀ r, 19 ≤ r → r ≤ 29 → (s.call host f).x r = s.x r) ∧ (s.call host f).sp = s.sp ∧
      ∀ a, InFrame entry a → (s.call host f).memory a = s.memory a := by
  refine ⟨?_, h.sp f hf (s.setX 30 _) hs, h.frame f hf (s.setX 30 _) hs⟩
  intro r hlow hhigh
  have hne : r ≠ 30 := by
    rintro rfl
    exact absurd hhigh (by decide)
  exact (h.regs f hf (s.setX 30 _) hs r hlow hhigh).trans (if_neg hne)

/-- Steps of the code, each from a good state. -/
abbrev Goes (host : Host σ) (code : Text) (entry : Cpu σ) :=
  Path (Cpu.next host code) (Good code entry)

/-- The states differ in the scratch registers and the flags only. -/
structure Scratch (s s' : Cpu σ) : Prop where
  regs : ∀ r, r ≠ 9 → r ≠ 10 → s'.x r = s.x r
  sp : s'.sp = s.sp
  memory : s'.memory = s.memory
  world : s'.world = s.world
  calls : s'.calls = s.calls

namespace Scratch

theorem refl (s : Cpu σ) : Scratch s s := ⟨fun _ _ _ => rfl, rfl, rfl, rfl, rfl⟩

theorem trans {s s' s'' : Cpu σ} (h : Scratch s s') (h' : Scratch s' s'') : Scratch s s'' where
  regs r h₉ h₁₀ := (h'.regs r h₉ h₁₀).trans (h.regs r h₉ h₁₀)
  sp := h'.sp.trans h.sp
  memory := h'.memory.trans h.memory
  world := h'.world.trans h.world
  calls := h'.calls.trans h.calls

theorem setX (s : Cpu σ) {r : Reg} (hr : r = 9 ∨ r = 10) (v : UInt64) (d : Int) :
    Scratch s ((s.setX r v).jump d) where
  regs r' h₉ h₁₀ := by
    have hne : r' ≠ r := by
      rintro rfl
      rcases hr with hr | hr
      · exact h₉ hr
      · exact h₁₀ hr
    rw [Cpu.jump_x, Cpu.setX_x, if_neg hne]
  sp := rfl
  memory := rfl
  world := rfl
  calls := rfl

theorem jump {s s' : Cpu σ} (h : Scratch s s') (d : Int) : Scratch s (s'.jump d) :=
  ⟨h.regs, h.sp, h.memory, h.world, h.calls⟩

end Scratch

/-- The registers from the pointer on, the stack pointer and the world outside are the same. -/
structure Kept (s s' : Cpu σ) : Prop where
  regs : ∀ r, 19 ≤ r → s'.x r = s.x r
  sp : s'.sp = s.sp
  world : s'.world = s.world
  calls : s'.calls = s.calls

namespace Kept

theorem refl (s : Cpu σ) : Kept s s := ⟨fun _ _ => rfl, rfl, rfl, rfl⟩

theorem trans {s s' s'' : Cpu σ} (h : Kept s s') (h' : Kept s' s'') : Kept s s'' where
  regs r hr := (h'.regs r hr).trans (h.regs r hr)
  sp := h'.sp.trans h.sp
  world := h'.world.trans h.world
  calls := h'.calls.trans h.calls

theorem setX (s : Cpu σ) {r : Reg} (hr : r < 19) (v : UInt64) (d : Int) :
    Kept s ((s.setX r v).jump d) where
  regs r' h := by
    have hne : r' ≠ r := by
      rintro rfl
      exact UInt8.not_le.mpr hr h
    rw [Cpu.jump_x, Cpu.setX_x, if_neg hne]
  sp := rfl
  world := rfl
  calls := rfl

end Kept

theorem Scratch.kept {s s' : Cpu σ} (h : Scratch s s') : Kept s s' where
  regs r hr := h.regs r (by rintro rfl; exact absurd hr (by decide))
    (by rintro rfl; exact absurd hr (by decide))
  sp := h.sp
  world := h.world
  calls := h.calls

section
variable {host : Host σ} {code : Text} {place : Label → Int} {entry : Cpu σ} {o : Options}

/-- One instruction of the code. -/
theorem goes_instr {s : Cpu σ} {k : Nat} {i : Instr Int} (hpc : s.pc = k)
    (hi : instrAt code k = some i) (hret : i ≠ .ret) (hgood : Confined entry s i) :
    Goes host code entry 1 s (s.perform host i) := by
  rw [← hpc] at hi
  exact .step ⟨i, hi, hgood⟩ (Cpu.next_of_instr hi hret) (.refl _)

/-- The address of the cell at an offset is brought into its register. -/
theorem address_runs {offset : Int64} {k : Nat} {s : Cpu σ}
    (hold : Holds code place (addressCode o offset) k) (hpc : s.pc = k) :
    ∃ n s', Goes host code entry n s s' ∧ s'.pc = (k + span (addressCode o offset) : Nat) ∧
      Scratch s s' ∧
      s'.getSp (cellReg o offset) + (cellOffset o offset).toUInt64 =
        s.x 19 + offset.toUInt64 := by
  by_cases hz : offset = 0
  · simp only [addressCode, cellReg, cellOffset, hz, ↓reduceIte] at hold ⊢
    exact ⟨0, s, .refl s, hpc, .refl s, rfl⟩
  · by_cases hpos : offset > 0
    · by_cases hb : o.boundsCheck = true
      · simp only [addressCode, cellReg, cellOffset, hz, hpos, hb, ↓reduceIte] at hold ⊢
        have hgo : Goes host code entry 1 s ((s.setX 9 (s.x 19 + offset.toUInt64)).jump 1) :=
          goes_instr hpc hold.1 nofun trivial
        refine ⟨1, _, hgo, ?_, .setX s (.inl rfl) _ 1, UInt64.add_zero _⟩
        rw [Cpu.jump_pc, Cpu.setX_pc, hpc]
        rfl
      · simp only [addressCode, cellReg, cellOffset, hz, hpos, hb, ↓reduceIte] at hold ⊢
        exact ⟨0, s, .refl s, hpc, .refl s, rfl⟩
    · simp only [addressCode, cellReg, cellOffset, hz, hpos, ↓reduceIte] at hold ⊢
      have hgo : Goes host code entry 1 s ((s.setX 9 (s.x 19 - (-offset).toUInt64)).jump 1) :=
        goes_instr hpc hold.1 nofun trivial
      refine ⟨1, _, hgo, ?_, .setX s (.inl rfl) _ 1, ?_⟩
      · rw [Cpu.jump_pc, Cpu.setX_pc, hpc]
        rfl
      · change s.x 19 - (-offset).toUInt64 + 0 = _
        rw [UInt64.add_zero, Int64.toUInt64_neg]
        grind

theorem pc_next {s : Cpu σ} {k : Nat} (hpc : s.pc = k) : (s.jump 1).pc = (k + 1 : Nat) := by
  rw [Cpu.jump_pc, hpc]
  rfl

/-- Where a branch of the code leads. -/
theorem pc_branch {s : Cpu σ} {k : Nat} (hpc : s.pc = k) (target : Int) :
    (s.jump (target - k)).pc = target := by
  rw [Cpu.jump_pc, hpc]
  omega

/-- The processor after the comparison of a bounds check. -/
def compared (s : Cpu σ) (reg : Reg) : Cpu σ :=
  { s.setX 10 (s.x reg - s.x 20) with
    pc := s.pc + 1 + 1, flags := Flags.compare (s.x reg - s.x 20) (s.x 21) }

theorem Scratch.compared (s : Cpu σ) (reg : Reg) : Scratch s (compared s reg) where
  regs _ _ h₁₀ := if_neg h₁₀
  sp := rfl
  memory := rfl
  world := rfl
  calls := rfl

theorem compare_runs {n k : Nat} {reg : Reg} {s : Cpu σ} (hreg : reg ≠ 31)
    (hold : Holds code place (checkCode o n reg) k) (hpc : s.pc = k) :
    Goes host code entry 2 s (compared s reg) := by
  have hget : s.get reg = s.x reg := if_neg hreg
  obtain ⟨⟨hsub, hcmp, -⟩, -⟩ := holds_append.mp hold
  have hgo : Goes host code entry 1 s ((s.setX 10 (s.x reg - s.x 20)).jump 1) := by
    rw [← hget]
    exact goes_instr hpc hsub nofun trivial
  have hpc' : ((s.setX 10 (s.x reg - s.x 20)).jump 1).pc = (k + 1 : Nat) := by
    rw [Cpu.jump_pc, Cpu.setX_pc, hpc]
    rfl
  have hgo' : Goes host code entry 1 ((s.setX 10 (s.x reg - s.x 20)).jump 1) (compared s reg) :=
    goes_instr hpc' hcmp nofun trivial
  exact hgo.trans hgo'

theorem pc_compared {k : Nat} {s : Cpu σ} (hpc : s.pc = k) (reg : Reg) :
    (compared s reg).pc = (k + 2 : Nat) := by
  change s.pc + 1 + 1 = _
  rw [hpc]
  rfl

theorem branchIf_taken {s : Cpu σ} {k : Nat} {cond : Cond} {d : Int} (hpc : s.pc = k)
    (hi : instrAt code k = some (.branchIf cond d)) (hc : cond.holds s.flags = true) :
    Goes host code entry 1 s (s.jump d) := by
  have hgo : Goes host code entry 1 s (s.jump (if cond.holds s.flags then d else 1)) :=
    goes_instr hpc hi nofun trivial
  rwa [if_pos hc] at hgo

theorem branchIf_passed {s : Cpu σ} {k : Nat} {cond : Cond} {d : Int} (hpc : s.pc = k)
    (hi : instrAt code k = some (.branchIf cond d)) (hc : cond.holds s.flags = false) :
    Goes host code entry 1 s (s.jump 1) := by
  have hgo : Goes host code entry 1 s (s.jump (if cond.holds s.flags then d else 1)) :=
    goes_instr hpc hi nofun trivial
  rwa [hc] at hgo

/-- A bounds check that succeeds goes on behind it. -/
theorem check_passes {n k : Nat} {reg : Reg} {s : Cpu σ} (hreg : reg ≠ 31)
    (hold : Holds code place (checkCode o n reg) k) (hpc : s.pc = k)
    (hin : s.x reg - s.x 20 < s.x 21) :
    ∃ m s', Goes host code entry m s s' ∧ s'.pc = (k + span (checkCode o n reg) : Nat) ∧
      Scratch s s' ∧ (reg ≠ 10 → s'.x reg = s.x reg) := by
  have hcmp : Goes host code entry 2 s (compared s reg) := compare_runs hreg hold hpc
  have hpc' := pc_compared hpc reg
  have hle : decide (s.x 21 ≤ s.x reg - s.x 20) = false := by
    simpa [UInt64.not_le] using hin
  unfold checkCode at hold ⊢
  obtain ⟨-, hold⟩ := holds_append.mp hold
  cases hf : o.farBranches with
  | true =>
    simp only [hf, ↓reduceIte] at hold ⊢
    obtain ⟨hbranch, -, hplace, -⟩ := hold
    have hc : Cond.lo.holds (compared s reg).flags = true := congrArg not hle
    exact ⟨_, _, hcmp.trans (branchIf_taken hpc' hbranch hc), (pc_branch hpc' _).trans hplace,
      (Scratch.compared s reg).jump _, fun h => if_neg h⟩
  | false =>
    simp only [hf, Bool.false_eq_true, ↓reduceIte] at hold ⊢
    obtain ⟨hbranch, -⟩ := hold
    exact ⟨_, _, hcmp.trans (branchIf_passed hpc' hbranch hle), pc_next hpc',
      (Scratch.compared s reg).jump _, fun h => if_neg h⟩

/-- A bounds check that fails goes to the trap with the index. -/
theorem check_traps {n k : Nat} {reg : Reg} {s : Cpu σ} (hreg : reg ≠ 31)
    (hold : Holds code place (checkCode o n reg) k) (hpc : s.pc = k)
    (hout : ¬ s.x reg - s.x 20 < s.x 21) :
    ∃ m s', Goes host code entry m s s' ∧ s'.pc = place Generator.trapLabel ∧
      Scratch s s' ∧ s'.x 10 = s.x reg - s.x 20 := by
  have hcmp : Goes host code entry 2 s (compared s reg) := compare_runs hreg hold hpc
  have hpc' := pc_compared hpc reg
  have hle : decide (s.x 21 ≤ s.x reg - s.x 20) = true := by
    simpa [UInt64.not_lt] using hout
  unfold checkCode at hold
  obtain ⟨-, hold⟩ := holds_append.mp hold
  cases hf : o.farBranches with
  | true =>
    simp only [hf, ↓reduceIte] at hold
    obtain ⟨hpass, hbranch, -⟩ := hold
    have hc : Cond.lo.holds (compared s reg).flags = false := congrArg not hle
    have hfall := hcmp.trans (branchIf_passed hpc' hpass hc)
    have hgo := hfall.trans (goes_instr (pc_next hpc') hbranch nofun trivial)
    exact ⟨_, _, hgo, pc_branch (pc_next hpc') _, ((Scratch.compared s reg).jump _).jump _, rfl⟩
  | false =>
    simp only [hf, Bool.false_eq_true, ↓reduceIte] at hold
    obtain ⟨hbranch, -⟩ := hold
    exact ⟨_, _, hcmp.trans (branchIf_taken hpc' hbranch hle), pc_branch hpc' _,
      (Scratch.compared s reg).jump _, rfl⟩

theorem cellReg_cases (o : Options) (offset : Int64) :
    cellReg o offset = 19 ∨ cellReg o offset = 9 := by
  unfold cellReg
  split
  · exact .inl rfl
  · split
    · split
      · exact .inr rfl
      · exact .inl rfl
    · exact .inr rfl

theorem getSp_cellReg (s : Cpu σ) (o : Options) (offset : Int64) :
    s.getSp (cellReg o offset) = s.x (cellReg o offset) := by
  rcases cellReg_cases o offset with h | h <;> rw [h] <;> rfl

/-- A cell whose address is checked is addressed without a displacement. -/
theorem cellOffset_checked (hb : o.boundsCheck = true) (offset : Int64) :
    cellOffset o offset = 0 := by
  unfold cellOffset
  rw [if_pos hb]
  split
  · rfl
  · split <;> rfl

/-- The cell's address is found and lies on the tape if it is checked. -/
theorem cell_passes {n k : Nat} {offset : Int64} {s : Cpu σ}
    (hold : Holds code place (cellCode o n offset) k) (hpc : s.pc = k)
    (hin : o.boundsCheck = true → s.x 19 + offset.toUInt64 - s.x 20 < s.x 21) :
    ∃ m s', Goes host code entry m s s' ∧ s'.pc = (k + span (cellCode o n offset) : Nat) ∧
      Scratch s s' ∧
      s'.getSp (cellReg o offset) + (cellOffset o offset).toUInt64 =
        s.x 19 + offset.toUInt64 := by
  unfold cellCode at hold ⊢
  obtain ⟨haddress, hcheck⟩ := holds_append.mp hold
  obtain ⟨m, s₁, hgo, hpc₁, hs₁, ha⟩ := address_runs haddress hpc
  cases hb : o.boundsCheck with
  | false =>
    simp only [Bool.false_eq_true, ↓reduceIte, List.append_nil]
    exact ⟨m, s₁, hgo, hpc₁, hs₁, ha⟩
  | true =>
    simp only [hb, ↓reduceIte] at hcheck ⊢
    have hreg := getSp_cellReg s₁ o offset
    have hzero : (cellOffset o offset).toUInt64 = 0 := congrArg _ (cellOffset_checked hb offset)
    rw [hzero, UInt64.add_zero, hreg] at ha
    have hin' : s₁.x (cellReg o offset) - s₁.x 20 < s₁.x 21 := by
      rw [ha, hs₁.regs 20 (by decide) (by decide), hs₁.regs 21 (by decide) (by decide)]
      exact hin hb
    have hne : cellReg o offset ≠ 31 ∧ cellReg o offset ≠ 10 := by
      rcases cellReg_cases o offset with h | h <;> rw [h] <;> decide
    obtain ⟨m', s₂, hgo', hpc₂, hs₂, hkeep⟩ := check_passes hne.1 hcheck hpc₁ hin'
    refine ⟨m + m', s₂, hgo.trans hgo', ?_, hs₁.trans hs₂, ?_⟩
    · rw [hpc₂, span_append, Nat.add_assoc]
    · rw [hzero, UInt64.add_zero, getSp_cellReg, hkeep hne.2, ha]

/-- The cell's address is found not to lie on the tape. -/
theorem cell_traps {n k : Nat} {offset : Int64} {s : Cpu σ} (hb : o.boundsCheck = true)
    (hold : Holds code place (cellCode o n offset) k) (hpc : s.pc = k)
    (hout : ¬ s.x 19 + offset.toUInt64 - s.x 20 < s.x 21) :
    ∃ m s', Goes host code entry m s s' ∧ s'.pc = place Generator.trapLabel ∧
      Scratch s s' ∧ s'.x 10 = s.x 19 + offset.toUInt64 - s.x 20 := by
  unfold cellCode at hold
  obtain ⟨haddress, hcheck⟩ := holds_append.mp hold
  obtain ⟨m, s₁, hgo, hpc₁, hs₁, ha⟩ := address_runs haddress hpc
  rw [if_pos hb] at hcheck
  have hzero : (cellOffset o offset).toUInt64 = 0 := congrArg _ (cellOffset_checked hb offset)
  have hbase := hs₁.regs 20 (by decide) (by decide)
  rw [hzero, UInt64.add_zero, getSp_cellReg] at ha
  have hout' : ¬ s₁.x (cellReg o offset) - s₁.x 20 < s₁.x 21 := by
    rw [ha, hbase, hs₁.regs 21 (by decide) (by decide)]
    exact hout
  have hne : cellReg o offset ≠ 31 := by
    rcases cellReg_cases o offset with h | h <;> rw [h] <;> decide
  obtain ⟨m', s₂, hgo', hpc₂, hs₂, hindex⟩ := check_traps hne hcheck hpc₁ hout'
  exact ⟨m + m', s₂, hgo.trans hgo', hpc₂, hs₁.trans hs₂, by rw [hindex, ha, hbase]⟩

/-- What a sum in the low half of a register does to its low byte. -/
theorem lowByte_sum (b : UInt8) (delta : Int64) :
    (b.toUInt64.toUInt32 + delta.toUInt64.toUInt32).toUInt64.toUInt8 =
      b + Machine.lowByte delta := by
  rw [UInt32.toUInt8_toUInt64, UInt32.toUInt8_add, UInt64.toUInt8_toUInt32,
    UInt64.toUInt8_toUInt32, UInt8.toUInt8_toUInt64]
  rfl

theorem lowByte_difference (b : UInt8) (delta : Int64) :
    (b.toUInt64.toUInt32 - (-delta).toUInt64.toUInt32).toUInt64.toUInt8 =
      b + Machine.lowByte delta := by
  rw [UInt32.toUInt8_toUInt64, UInt32.toUInt8_sub, UInt64.toUInt8_toUInt32,
    UInt64.toUInt8_toUInt32, UInt8.toUInt8_toUInt64, Int64.toUInt64_neg, UInt64.toUInt8_neg,
    UInt8.sub_neg]
  rfl

variable (host)

/-- A byte is loaded. -/
theorem load_runs {k : Nat} {displacement : Int64} {rt reg : Reg} {s : Cpu σ} {a : UInt64}
    (ht : rt < 19) (hi : instrAt code k = some (.loadByte rt reg displacement)) (hpc : s.pc = k)
    (ha : s.getSp reg + displacement.toUInt64 = a) (hin : InTape entry a) :
    Goes host code entry 1 s ((s.setX rt (s.memory a).toUInt64).jump 1) := by
  have hne : rt ≠ 31 := by
    rintro rfl
    exact absurd ht (by decide)
  have hgo : Goes host code entry 1 s
      ((s.set rt (s.memory (s.getSp reg + displacement.toUInt64)).toUInt64).jump 1) :=
    goes_instr hpc hi nofun (show InTape entry _ from ha ▸ hin)
  rwa [Cpu.set, if_neg hne, ha] at hgo

theorem store_runs {k : Nat} {displacement : Int64} {rt reg : Reg} {s : Cpu σ} {a : UInt64}
    (hi : instrAt code k = some (.storeByte rt reg displacement)) (hpc : s.pc = k)
    (ha : s.getSp reg + displacement.toUInt64 = a) (hin : InTape entry a) :
    Goes host code entry 1 s
      ({ s with memory := s.memory.set a (s.get rt).toUInt8 }.jump 1) := by
  subst ha
  exact goes_instr hpc hi nofun hin

/-- A byte in the value register is added to. -/
theorem add_runs {k : Nat} {delta : Int64} {b : UInt8} {s : Cpu σ} {f : Label → Int}
    (hi : instrAt code k = some (.link f (if delta > 0 then .arith .add false 0 0 delta
      else .arith .sub false 0 0 (-delta))))
    (hpc : s.pc = k) (hb : s.x 0 = b.toUInt64) :
    ∃ v : UInt64, Goes host code entry 1 s ((s.setX 0 v).jump 1) ∧
      v.toUInt8 = b + Machine.lowByte delta := by
  by_cases hpos : delta > 0
  · rw [if_pos hpos] at hi
    have hgo : Goes host code entry 1 s
        ((s.setX 0 ((s.x 0).toUInt32 + delta.toUInt64.toUInt32).toUInt64).jump 1) :=
      goes_instr hpc hi nofun trivial
    exact ⟨_, hgo, by rw [hb, lowByte_sum]⟩
  · rw [if_neg hpos] at hi
    have hgo : Goes host code entry 1 s
        ((s.setX 0 ((s.x 0).toUInt32 - (-delta).toUInt64.toUInt32).toUInt64).jump 1) :=
      goes_instr hpc hi nofun trivial
    exact ⟨_, hgo, by rw [hb, lowByte_difference]⟩

theorem getSp_setX (s : Cpu σ) {r reg : Reg} (hne : reg ≠ r) (v : UInt64) (d : Int) :
    ((s.setX r v).jump d).getSp reg = s.getSp reg := by
  simp only [Cpu.getSp, Cpu.jump_sp, Cpu.setX_sp, Cpu.jump_x, Cpu.setX_x, if_neg hne]

/-- The cell at an address on the tape is added to. -/
theorem sum_runs {k : Nat} {delta displacement : Int64} {reg : Reg} {s : Cpu σ} {a : UInt64}
    (hreg : reg ≠ 0) (hold : Holds code place (sumCode delta reg displacement) k)
    (hpc : s.pc = k) (ha : s.getSp reg + displacement.toUInt64 = a) (hin : InTape entry a) :
    ∃ m s', Goes host code entry m s s' ∧
      s'.pc = (k + span (sumCode delta reg displacement) : Nat) ∧ Kept s s' ∧
      s'.memory = s.memory.set a (s.memory a + Machine.lowByte delta) := by
  unfold sumCode at hold ⊢
  by_cases hz : delta = 0
  · rw [if_pos hz]
    refine ⟨0, s, .refl s, hpc, Kept.refl s, ?_⟩
    rw [hz, show Machine.lowByte 0 = 0 from rfl, UInt8.add_zero, Memory.set_self]
  · rw [if_neg hz] at hold ⊢
    obtain ⟨hload, hsum, hstore, -⟩ := hold
    have hgo₁ := load_runs host (by decide) hload hpc ha hin
    have hpc₁ := pc_next (s := s.setX 0 (s.memory a).toUInt64) hpc
    obtain ⟨v, hgo₂, hv⟩ := add_runs host hsum hpc₁ rfl
    have hpc₂ := pc_next (s := ((s.setX 0 (s.memory a).toUInt64).jump 1).setX 0 v) hpc₁
    have ha₂ := (getSp_setX _ hreg v 1).trans (getSp_setX s hreg (s.memory a).toUInt64 1)
    have hgo₃ := store_runs host hstore hpc₂ (by rw [ha₂]; exact ha) hin
    refine ⟨_, _, (hgo₁.trans hgo₂).trans hgo₃, pc_next hpc₂, ?_, ?_⟩
    · exact ((Kept.setX s (by decide) _ 1).trans (Kept.setX _ (by decide) _ 1)).trans
        ⟨fun _ _ => rfl, rfl, rfl, rfl⟩
    · rw [← hv]
      rfl

/-- A routine is called with the context. -/
theorem call_runs {k : Nat} {reg : Reg} {s : Cpu σ} (hreg : 19 ≤ reg) (hlt : reg ≠ 31)
    (hold : Holds code place [.emit (.mov 0 Reg.context), .emit (.call reg)] k)
    (hpc : s.pc = k) (hf : s.x reg ∈ routines entry) :
    ∃ t : Cpu σ, Goes host code entry 2 s (t.call host (s.x reg)) ∧ t.pc = (k + 1 : Nat) ∧
      Kept s t ∧
      t.memory = s.memory ∧ t.x 0 = s.x 22 ∧ t.x 1 = s.x 1 := by
  obtain ⟨hmov, hcall, -⟩ := hold
  have hgo₁ : Goes host code entry 1 s ((s.setX 0 (s.x 22)).jump 1) :=
    goes_instr hpc hmov nofun trivial
  have hpc₁ := pc_next (s := s.setX 0 (s.x 22)) hpc
  have hkept := Kept.setX s (r := 0) (by decide) (s.x 22) 1
  have hget : ((s.setX 0 (s.x 22)).jump 1).get reg = s.x reg := by
    rw [Cpu.get, if_neg hlt, hkept.regs reg hreg]
  have hgo₂ : Goes host code entry 1 ((s.setX 0 (s.x 22)).jump 1)
      (((s.setX 0 (s.x 22)).jump 1).call host (s.x reg)) := by
    rw [← hget]
    exact goes_instr hpc₁ hcall nofun (show _ ∈ routines entry from hget ▸ hf)
  exact ⟨_, hgo₁.trans hgo₂, hpc₁, hkept, rfl, rfl, rfl⟩

/-- A byte of the tape is put out. -/
theorem put_runs {k : Nat} {displacement : Int64} {reg : Reg} {s : Cpu σ} {a : UInt64}
    (hold : Holds code place [.emit (.loadByte 1 reg displacement),
      .emit (.mov 0 Reg.context), .emit (.call Reg.put)] k)
    (hpc : s.pc = k) (ha : s.getSp reg + displacement.toUInt64 = a) (hin : InTape entry a)
    (hf : s.x 23 ∈ routines entry) :
    ∃ t : Cpu σ, Goes host code entry 3 s (t.call host (s.x 23)) ∧ t.pc = (k + 2 : Nat) ∧ Kept s t ∧
      t.memory = s.memory ∧ t.x 0 = s.x 22 ∧ t.x 1 = (s.memory a).toUInt64 := by
  obtain ⟨hload, hcall⟩ := hold
  have hgo₁ := load_runs host (by decide) hload hpc ha hin
  have hpc₁ := pc_next (s := s.setX 1 (s.memory a).toUInt64) hpc
  obtain ⟨t, hgo₂, hpct, hkept, hmem, h₀, h₁⟩ :=
    call_runs host (by decide) (by decide) hcall hpc₁ hf
  exact ⟨t, hgo₁.trans hgo₂, hpct, (Kept.setX s (by decide) _ 1).trans hkept, hmem, h₀, h₁⟩

/-- The byte that a routine gave is stored, unless bit 31 says that there is none. The call may have
changed the address register, so the address is found again. -/
theorem receive_runs {k : Nat} {offset : Int64} {skip : Label} {s : Cpu σ}
    (hold : Holds code place (.emit (.branchIfBit Reg.value 31 skip) :: (addressCode o offset ++
      [.emit (.storeByte Reg.value (cellReg o offset) (cellOffset o offset)), .bind skip])) k)
    (hpc : s.pc = k) (hin : InTape entry (s.x 19 + offset.toUInt64)) :
    ∃ m s', Goes host code entry m s s' ∧
      s'.pc = (k + (1 + span (addressCode o offset) + 1) : Nat) ∧ Kept s s' ∧
      s'.memory = if (s.x 0).toNat.testBit 31 then s.memory
        else s.memory.set (s.x 19 + offset.toUInt64) (s.x 0).toUInt8 := by
  obtain ⟨hbranch, hold⟩ := hold
  obtain ⟨haddress, hstore, hplace, -⟩ := holds_append.mp hold
  have hgo : Goes host code entry 1 s
      (s.jump (if (s.x 0).toNat.testBit 31 then place skip - k else 1)) :=
    goes_instr hpc hbranch nofun trivial
  by_cases hbit : (s.x 0).toNat.testBit 31 = true
  · rw [if_pos hbit] at hgo ⊢
    refine ⟨1, _, hgo, ?_, ⟨fun _ _ => rfl, rfl, rfl, rfl⟩, rfl⟩
    rw [pc_branch hpc, hplace]
    congr 1
    omega
  · rw [if_neg hbit] at hgo ⊢
    obtain ⟨m, s₁, hgo₁, hpc₁, hs₁, ha⟩ := address_runs haddress (pc_next hpc)
    have hgo₂ := store_runs host hstore hpc₁ ha hin
    refine ⟨_, _, (hgo.trans hgo₁).trans hgo₂, ?_, ?_, ?_⟩
    · refine (pc_next (s := { s₁ with memory := _ }) hpc₁).trans ?_
      congr 1
      omega
    · exact ⟨hs₁.kept.regs, hs₁.sp, hs₁.world, hs₁.calls⟩
    · change s₁.memory.set _ (s₁.x 0).toUInt8 = _
      rw [hs₁.memory, hs₁.regs 0 (by decide) (by decide)]
      rfl

theorem low_half_zero (b : UInt8) : b.toUInt64.toUInt32 = 0 ↔ b = 0 := by
  rw [← UInt32.toNat_inj, ← UInt8.toNat_inj]
  simp only [UInt64.toNat_toUInt32, UInt8.toNat_toUInt64, UInt32.toNat_zero, UInt8.toNat_zero]
  have := b.toNat_lt
  omega

/-- The test at the head of a loop, with the byte in the value register. -/
theorem leave_runs {n k : Nat} {stop : Label} {b : UInt8} {s : Cpu σ}
    (hold : Holds code place (leaveCode o n stop) k) (hpc : s.pc = k) (hb : s.x 0 = b.toUInt64) :
    ∃ m s', Goes host code entry (m + 1) s s' ∧ Scratch s s' ∧
      s'.pc = if b = 0 then place stop else (k + span (leaveCode o n stop) : Nat) := by
  have hval : (s.get 0).toUInt32 = 0 ↔ b = 0 := by
    rw [show s.get 0 = s.x 0 from rfl, hb, low_half_zero]
  unfold leaveCode at hold ⊢
  cases hf : o.farBranches with
  | true =>
    simp only [hf, ↓reduceIte] at hold ⊢
    obtain ⟨hbranch, hleave, hplace, -⟩ := hold
    have hgo : Goes host code entry 1 s
        (s.jump (if (s.get 0).toUInt32 = 0 then 1 else place (label n) - k)) :=
      goes_instr hpc hbranch nofun trivial
    by_cases hz : b = 0
    · rw [if_pos (hval.mpr hz)] at hgo
      have hgo' := hgo.trans (goes_instr (pc_next hpc) hleave nofun trivial)
      refine ⟨1, _, hgo', ((Scratch.refl s).jump _).jump _, ?_⟩
      rw [if_pos hz]
      exact pc_branch (pc_next hpc) _
    · rw [if_neg (mt hval.mp hz)] at hgo
      refine ⟨0, _, hgo, (Scratch.refl s).jump _, ?_⟩
      rw [if_neg hz]
      exact (pc_branch hpc _).trans hplace
  | false =>
    simp only [hf, Bool.false_eq_true, ↓reduceIte] at hold ⊢
    obtain ⟨hbranch, -⟩ := hold
    have hgo : Goes host code entry 1 s
        (s.jump (if (s.get 0).toUInt32 = 0 then place stop - k else 1)) :=
      goes_instr hpc hbranch nofun trivial
    by_cases hz : b = 0
    · rw [if_pos (hval.mpr hz)] at hgo
      refine ⟨0, _, hgo, (Scratch.refl s).jump _, ?_⟩
      rw [if_pos hz]
      exact pc_branch hpc _
    · rw [if_neg (mt hval.mp hz)] at hgo
      refine ⟨0, _, hgo, (Scratch.refl s).jump _, ?_⟩
      rw [if_neg hz]
      exact pc_next hpc

/-- The head of a loop goes to its end or into its body, by the cell under the pointer. -/
theorem head_passes {n k : Nat} {s : Cpu σ} (hold : Holds code place (headCode o n) k)
    (hpc : s.pc = k) (hin : o.boundsCheck = true → s.x 19 - s.x 20 < s.x 21)
    (htape : InTape entry (s.x 19)) :
    ∃ m s', Goes host code entry (m + 1) s s' ∧ Kept s s' ∧ s'.memory = s.memory ∧
      s'.pc = if s.memory (s.x 19) = 0 then place (label (n + 1))
        else (k + span (headCode o n) : Nat) := by
  unfold headCode at hold ⊢
  obtain ⟨hold, hleave⟩ := holds_append.mp hold
  obtain ⟨hold, hload, -⟩ := holds_append.mp hold
  obtain ⟨-, hcell⟩ := holds_append.mp hold
  have hzero : s.x 19 + (0 : Int64).toUInt64 = s.x 19 := UInt64.add_zero _
  obtain ⟨m₁, s₁, hgo₁, hpc₁, hs₁, -⟩ := cell_passes hcell hpc (by rwa [hzero])
  have hptr : s₁.getSp 19 + (0 : Int64).toUInt64 = s.x 19 :=
    (UInt64.add_zero _).trans (hs₁.regs 19 (by decide) (by decide))
  have hpc₁' : s₁.pc = (k + span ([.label, .label, .bind (label n)] ++
      cellCode o (n + 2) 0) : Nat) := by
    rw [hpc₁, span_append, Nat.add_assoc]
  have hgo₂ := load_runs host (by decide) hload hpc₁' hptr htape
  have hpc₂ := pc_next (s := s₁.setX 0 (s₁.memory (s.x 19)).toUInt64) hpc₁'
  obtain ⟨m₃, s₃, hgo₃, hs₃, hpc₃⟩ := leave_runs host hleave
    (hpc₂.trans (by rw [span_append _ [_]]; rfl)) rfl
  refine ⟨m₁ + 1 + m₃, s₃, (hgo₁.trans hgo₂).trans hgo₃, ?_, ?_, ?_⟩
  · exact (hs₁.kept.trans (Kept.setX s₁ (by decide) _ 1)).trans hs₃.kept
  · exact hs₃.memory.trans hs₁.memory
  · rw [hpc₃, hs₁.memory, span_append (_ ++ [_]), Nat.add_assoc]

/-- Instructions performed one after the other. -/
def line (is : List (Instr Label)) (s : Cpu σ) : Cpu σ :=
  is.foldl (fun s i => s.perform host (i.link fun _ => 0)) s

/-- Each of the instructions is confined when its turn comes. -/
def ConfinedLine (entry : Cpu σ) : List (Instr Label) → Cpu σ → Prop
  | [], _ => True
  | i :: is, s =>
    Confined entry s (i.link fun _ => 0) ∧
      ConfinedLine entry is (s.perform host (i.link fun _ => 0))

/-- An instruction that moves on to the next one and calls nothing. -/
def Plain : Instr Label → Bool
  | .ret => false
  | .call _ => false
  | i => i.target?.isNone

theorem perform_plain {i : Instr Label} (hi : Plain i = true) (s : Cpu σ) :
    (s.perform host (i.link fun _ => 0)).pc = s.pc + 1 ∧
      (s.perform host (i.link fun _ => 0)).world = s.world ∧
      (s.perform host (i.link fun _ => 0)).calls = s.calls := by
  cases i with
  | arith op wide rd rn imm => cases op <;> cases wide <;> simp [Instr.link, Cpu.perform]
  | pair load mode rt rt2 rn offset => cases load <;> simp [Instr.link, Cpu.perform]
  | movFromSp rd => simp [Instr.link, Cpu.perform]
  | mov rd rm => simp [Instr.link, Cpu.perform]
  | subReg rd rn rm => simp [Instr.link, Cpu.perform]
  | loadByte rt rn imm => simp [Instr.link, Cpu.perform]
  | cmp rn rm => exact ⟨rfl, rfl, rfl⟩
  | storeByte rt rn imm => exact ⟨rfl, rfl, rfl⟩
  | nop => exact ⟨rfl, rfl, rfl⟩
  | call rn => cases hi
  | ret => cases hi
  | branch t => cases hi
  | branchIfZero rt t => cases hi
  | branchIfNotZero rt t => cases hi
  | branchIf cond t => cases hi
  | branchIfBit rt bit t => cases hi

theorem link_plain {i : Instr Label} (hi : Plain i = true) (f : Label → Int) :
    i.link f = i.link fun _ => 0 := by
  cases i <;> first | rfl | cases hi

/-- Plain instructions are performed one after the other. -/
theorem line_runs {is : List (Instr Label)} {k : Nat} {s : Cpu σ}
    (hold : Holds code place (is.map .emit) k) (hpc : s.pc = k)
    (hplain : is.all Plain = true) (hconf : ConfinedLine host entry is s) :
    Goes host code entry is.length s (line host is s) ∧
      (line host is s).pc = (k + is.length : Nat) ∧ (line host is s).world = s.world ∧
      (line host is s).calls = s.calls := by
  induction is generalizing k s with
  | nil => exact ⟨.refl s, hpc, rfl, rfl⟩
  | cons i is ih =>
    obtain ⟨hi, hrest⟩ := hold
    rw [List.all_cons, Bool.and_eq_true] at hplain
    obtain ⟨hfirst, hlater⟩ := hplain
    rw [link_plain hfirst] at hi
    have hret : i.link (fun _ => 0) ≠ .ret := by
      intro h
      cases i with
      | ret => cases hfirst
      | _ => cases h
    obtain ⟨hstep, hworld, hcalls⟩ := perform_plain host hfirst s
    have hpc' : (s.perform host (i.link fun _ => 0)).pc = (k + 1 : Nat) := by
      rw [hstep, hpc]
      rfl
    obtain ⟨hgo, hend, hworld', hcalls'⟩ := ih hrest hpc' hlater hconf.2
    refine ⟨?_, ?_, hworld'.trans hworld, hcalls'.trans hcalls⟩
    · have := (goes_instr hpc hi hret hconf.1).trans hgo
      rwa [Nat.add_comm] at this
    · refine hend.trans ?_
      rw [List.length_cons, Nat.add_right_comm, Nat.add_assoc]

end

end TapeLang.Native
