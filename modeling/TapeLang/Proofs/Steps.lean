import TapeLang.Proofs.Frame

namespace TapeLang.Native

open A64 Layout

variable {σ : Type} {host : Host σ} {code : Text} {place : Label → Int} {entry s : Cpu σ}
  {o : Options} {n k : Nat} {offset : Int64}

theorem cellReg_ne_zero (o : Options) (offset : Int64) : cellReg o offset ≠ 0 := by
  rcases cellReg_cases o offset with h | h <;> rw [h] <;> decide

theorem Body.put_mem (h : Body entry s) : s.x 23 ∈ routines entry := by simp [routines, h.put]

theorem Body.get_mem (h : Body entry s) : s.x 24 ∈ routines entry := by simp [routines, h.get]

theorem move_step {delta : Int64} (hold : Holds code place (opCode o n (.move delta)) k)
    (hpc : s.pc = k) :
    ∃ m s', Goes host code entry m s s' ∧ s'.pc = (k + span (opCode o n (.move delta)) : Nat) ∧
      s'.x 19 = s.x 19 + delta.toUInt64 ∧ (∀ r, r ≠ 19 → s'.x r = s.x r) ∧ s'.sp = s.sp ∧
      s'.memory = s.memory ∧ s'.world = s.world ∧ s'.calls = s.calls := by
  unfold opCode moveCode at hold ⊢
  by_cases hpos : delta > 0
  · simp only [hpos, ↓reduceIte] at hold ⊢
    have hgo : Goes host code entry 1 s ((s.setX 19 (s.x 19 + delta.toUInt64)).jump 1) :=
      goes_instr hpc hold.1 nofun trivial
    exact ⟨1, _, hgo, pc_next hpc, rfl, fun r hr => if_neg hr, rfl, rfl, rfl, rfl⟩
  · by_cases hneg : delta < 0
    · simp only [hpos, hneg, ↓reduceIte] at hold ⊢
      have hgo : Goes host code entry 1 s ((s.setX 19 (s.x 19 - (-delta).toUInt64)).jump 1) :=
        goes_instr hpc hold.1 nofun trivial
      refine ⟨1, _, hgo, pc_next hpc, ?_, fun r hr => if_neg hr, rfl, rfl, rfl, rfl⟩
      change s.x 19 - (-delta).toUInt64 = _
      rw [Int64.toUInt64_neg]
      grind
    · have hz : delta = 0 := Int64.le_antisymm (Int64.not_lt.mp hpos) (Int64.not_lt.mp hneg)
      simp only [hpos, hneg, ↓reduceIte]
      refine ⟨0, s, .refl s, hpc, ?_, fun _ _ => rfl, rfl, rfl, rfl, rfl⟩
      rw [hz]
      exact (UInt64.add_zero _).symm

section
variable (h : Body entry s) (hpc : s.pc = k)
  (hin : s.x 19 + offset.toUInt64 - s.x 20 < s.x 21)
include h hpc hin

theorem add_step {delta : Int64} (hold : Holds code place (opCode o n (.add delta offset)) k) :
    ∃ m s', Goes host code entry m s s' ∧
      s'.pc = (k + span (opCode o n (.add delta offset)) : Nat) ∧ Kept s s' ∧
      s'.memory = s.memory.set (s.x 19 + offset.toUInt64)
        (s.memory (s.x 19 + offset.toUInt64) + Machine.lowByte delta) := by
  obtain ⟨hcell, hsum⟩ := holds_append.mp hold
  obtain ⟨m, s₁, hgo, hpc₁, hs₁, ha⟩ := cell_passes hcell hpc fun _ => hin
  obtain ⟨m', s₂, hgo', hpc₂, hs₂, hmem⟩ :=
    sum_runs host (cellReg_ne_zero o offset) hsum hpc₁ ha (h.inTape hin)
  refine ⟨m + m', s₂, hgo.trans hgo', ?_, hs₁.kept.trans hs₂, by rw [hmem, hs₁.memory]⟩
  rw [hpc₂, opCode, span_append, Nat.add_assoc]

theorem clear_step (hold : Holds code place (opCode o n (.clear offset)) k) :
    ∃ m s', Goes host code entry m s s' ∧
      s'.pc = (k + span (opCode o n (.clear offset)) : Nat) ∧ Kept s s' ∧
      s'.memory = s.memory.set (s.x 19 + offset.toUInt64) 0 := by
  obtain ⟨hcell, hstore, -⟩ := holds_append.mp hold
  obtain ⟨m, s₁, hgo, hpc₁, hs₁, ha⟩ := cell_passes hcell hpc fun _ => hin
  have hgo' := store_runs host hstore hpc₁ ha (h.inTape hin)
  refine ⟨m + 1, _, hgo.trans hgo', ?_, ?_, ?_⟩
  · rw [opCode, span_append, ← Nat.add_assoc]
    exact pc_next (s := { s₁ with memory := _ }) hpc₁
  · exact hs₁.kept.trans ⟨fun _ _ => rfl, rfl, rfl, rfl⟩
  · rw [← hs₁.memory]
    rfl

/-- The put routine is called with the context and the byte. -/
theorem put_step (hold : Holds code place (opCode o n (.put offset)) k) :
    ∃ m, ∃ t : Cpu σ, Goes host code entry m s (t.call host (entry.x 3)) ∧
      (t.call host (entry.x 3)).pc = (k + span (opCode o n (.put offset)) : Nat) ∧ Kept s t ∧
      t.memory = s.memory ∧ t.x 0 = entry.x 2 ∧
      t.x 1 = (s.memory (s.x 19 + offset.toUInt64)).toUInt64 := by
  obtain ⟨hcell, hput⟩ := holds_append.mp hold
  obtain ⟨m, s₁, hgo, hpc₁, hs₁, ha⟩ := cell_passes hcell hpc fun _ => hin
  have hbody : Body entry s₁ := h.kept hs₁.kept fun a _ => by rw [hs₁.memory]
  obtain ⟨t, hgo', hpct, ht, hmem, h₀, h₁⟩ :=
    put_runs host hput hpc₁ ha (h.inTape hin) hbody.put_mem
  rw [hbody.put] at hgo'
  refine ⟨m + 3, t, hgo.trans hgo', ?_, hs₁.kept.trans ht, hmem.trans hs₁.memory,
    h₀.trans hbody.context, by rw [h₁, hs₁.memory]⟩
  rw [opCode, span_append, ← Nat.add_assoc]
  exact pc_next hpct

/-- The get routine is called with the context, and its byte is stored unless there is none. -/
theorem get_step (hkeep : Keeping host entry)
    (hold : Holds code place (opCode o n (.get offset)) k) :
    ∃ m, ∃ t s' : Cpu σ, Goes host code entry m s s' ∧
      s'.pc = (k + span (opCode o n (.get offset)) : Nat) ∧ Kept s t ∧
      t.memory = s.memory ∧ t.x 0 = entry.x 2 ∧ Kept (t.call host (entry.x 4)) s' ∧
      s'.memory =
        if ((t.call host (entry.x 4)).x 0).toNat.testBit 31 then (t.call host (entry.x 4)).memory
        else (t.call host (entry.x 4)).memory.set (s.x 19 + offset.toUInt64)
          ((t.call host (entry.x 4)).x 0).toUInt8 := by
  obtain ⟨hcell, hmov, hcall, hrest⟩ := holds_append.mp hold
  obtain ⟨m, s₁, hgo₁, hpc₁, hs₁, -⟩ := cell_passes hcell hpc fun _ => hin
  have hbody : Body entry s₁ := h.kept hs₁.kept fun a _ => by rw [hs₁.memory]
  obtain ⟨t, hgo₂, hpct, ht, hmem, h₀, -⟩ :=
    call_runs host (by decide) (by decide) ⟨hmov, hcall, trivial⟩ hpc₁ hbody.get_mem
  rw [show s₁.x Reg.get = entry.x 4 from hbody.get] at hgo₂
  have htbody : Body entry t := hbody.kept ht fun a _ => by rw [hmem]
  have hptr : (t.call host (entry.x 4)).x 19 = s.x 19 := by
    rw [(hkeep.call (by simp [routines]) htbody.sp).1 19 (by decide) (by decide),
      ht.regs 19 (by decide), hs₁.kept.regs 19 (by decide)]
  have hpcu : (t.call host (entry.x 4)).pc = (k + span (cellCode o n offset) + 2 : Nat) :=
    pc_next hpct
  have hin' : InTape entry ((t.call host (entry.x 4)).x 19 + offset.toUInt64) := by
    rw [hptr]
    exact h.inTape hin
  obtain ⟨m', s', hgo₃, hpc', hkept, hmem'⟩ := receive_runs host hrest hpcu hin'
  rw [hptr] at hmem'
  refine ⟨_, t, s', (hgo₁.trans hgo₂).trans hgo₃, ?_, hs₁.kept.trans ht, hmem.trans hs₁.memory,
    h₀.trans hbody.context, hkept, hmem'⟩
  rw [hpc', opCode, askCode]
  simp only [span_append, span]
  congr 1
  omega

end

/-- The code of a step that touches a cell begins with the code that finds it. -/
theorem cell_of_op {op : Op} (hop : op.offset? = some offset)
    (hold : Holds code place (opCode o n op) k) : Holds code place (cellCode o n offset) k := by
  cases op with
  | move delta => cases hop
  | unknown => cases hop
  | add delta offset' =>
    cases hop
    exact (holds_append.mp hold).1
  | clear offset' =>
    cases hop
    exact (holds_append.mp hold).1
  | put offset' =>
    cases hop
    exact (holds_append.mp hold).1
  | get offset' =>
    cases hop
    exact (holds_append.mp hold).1

/-- So does the head of a loop. -/
theorem cell_of_head (hold : Holds code place (headCode o n) k) :
    Holds code place (cellCode o (n + 2) 0) k := by
  obtain ⟨hold, -⟩ := holds_append.mp hold
  obtain ⟨hold, -⟩ := holds_append.mp hold
  exact (holds_append.mp hold).2

/-- The parts of a loop: its head, its body, the branch back, and what follows it. -/
theorem loop_holds {body rest : Block}
    (hold : Holds code place (blockCode o n (.loop body rest)) k) :
    ∃ n₁ n₂ last, Holds code place (headCode o n) k ∧
      Holds code place (blockCode o n₁ body) (k + span (headCode o n)) ∧
      last = k + span (headCode o n) + span (blockCode o n₁ body) ∧
      instrAt code last = some (.branch ((k : Int) - last)) ∧
      place (label (n + 1)) = (last + 1 : Nat) ∧ Holds code place (blockCode o n₂ rest) (last + 1) ∧
      k + span (blockCode o n (.loop body rest)) = last + 1 + span (blockCode o n₂ rest) := by
  have hsplit := hold
  simp only [blockCode, List.append_assoc, holds_append] at hsplit
  obtain ⟨hhead, hbody, ⟨hback, hstop, -⟩, hrest⟩ := hsplit
  have hplace : place (label n) = k := hhead.1
  refine ⟨_, _, _, hhead, hbody, rfl, ?_, hstop, hrest, ?_⟩
  · rw [hback, ← hplace]
    rfl
  · simp only [blockCode, span_append, span]
    omega

/-- The parts of the code of a block: the prologue, the block, the epilogue at the exit, and the
trap's report if anything leads there. -/
theorem script_holds {b : Block} (hold : Holds code place (script o b) 0) :
    ∃ first last, Holds code place (Generator.prologue.map .emit) 0 ∧
      first = Generator.prologue.length ∧ Holds code place (blockCode o 2 b) first ∧
      last = first + span (blockCode o 2 b) ∧ place Generator.exitLabel = (last : Nat) ∧
      Holds code place (Generator.epilogue.map .emit) last ∧
      (checksIn o b ≠ 0 → ∃ stub : Nat, place Generator.trapLabel = stub ∧
        Holds code place (Generator.trapStub.map .emit) stub) := by
  simp only [script, List.append_assoc, holds_append] at hold
  obtain ⟨-, hpro, hblock, ⟨hexit, hepi⟩, hstub⟩ := hold
  refine ⟨_, _, hpro, rfl, hblock, rfl, hexit, hepi, ?_⟩
  intro hchecks
  rw [stubCode, if_neg hchecks] at hstub
  exact ⟨_, hstub.1, hstub.2⟩

end TapeLang.Native
