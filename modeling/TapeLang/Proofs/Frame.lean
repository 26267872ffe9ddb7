import TapeLang.Proofs.Pieces

namespace TapeLang.Native

open A64 Layout

variable {σ : Type} {entry s s' : Cpu σ}

/-- The word of the frame with a number. -/
def slot (entry : Cpu σ) (j : Nat) : UInt64 := entry.sp - 80 + UInt64.ofNat (8 * j)

/-- The registers that the frame holds, word by word. -/
def savedRegs : List Reg := [29, 30, 19, 20, 21, 22, 23, 24, 25, 26]

/-- What holds while the code of a block runs: the arguments are in their registers, and the frame
holds the registers of the caller. -/
structure Body (entry s : Cpu σ) : Prop where
  base : s.x 20 = entry.x 0
  length : s.x 21 = entry.x 1
  context : s.x 22 = entry.x 2
  put : s.x 23 = entry.x 3
  get : s.x 24 = entry.x 4
  trap : s.x 25 = entry.x 5
  others : ∀ r, 27 ≤ r → r ≤ 28 → s.x r = entry.x r
  sp : s.sp = entry.sp - 80
  saved : ∀ {j : Nat} {r : Reg}, savedRegs[j]? = some r → s.memory.read (slot entry j) = entry.x r

theorem slot_add (entry : Cpu σ) (i j : Nat) :
    slot entry i + UInt64.ofNat (8 * j) = slot entry (i + j) := by
  rw [slot, UInt64.add_assoc, ← UInt64.ofNat_add, ← Nat.mul_add, slot]

/-- A byte near enough to a word of the frame lies in the frame. -/
theorem inFrame_slot (entry : Cpu σ) {j : Nat} {i : UInt64} (h : 8 * j + i.toNat < 80) :
    InFrame entry (slot entry j + i) := by
  refine ⟨UInt64.ofNat (8 * j) + i, ?_, by rw [slot, UInt64.add_assoc]⟩
  rw [UInt64.lt_iff_toNat_lt, UInt64.toNat_add, UInt64.toNat_ofNat']
  change _ < 80
  omega

theorem eq_of_others {r : Reg} (hlow : 27 ≤ r) (hhigh : r ≤ 28) : r = 27 ∨ r = 28 := by
  have h₁ : 27 ≤ r.toNat := hlow
  have h₂ : r.toNat ≤ 28 := hhigh
  simp only [← UInt8.toNat_inj, UInt8.reduceToNat]
  omega

theorem eq_of_preserved {r : Reg} (hlow : 19 ≤ r) (hhigh : r ≤ 30) :
    r = 19 ∨ r = 20 ∨ r = 21 ∨ r = 22 ∨ r = 23 ∨ r = 24 ∨ r = 25 ∨ r = 26 ∨ r = 27 ∨ r = 28 ∨
      r = 29 ∨ r = 30 := by
  have h₁ : 19 ≤ r.toNat := hlow
  have h₂ : r.toNat ≤ 30 := hhigh
  simp only [← UInt8.toNat_inj, UInt8.reduceToNat]
  omega

theorem savedRegs_lt {j : Nat} {r : Reg} (h : savedRegs[j]? = some r) : j < 10 :=
  (List.getElem?_eq_some_iff.mp h).1

/-- What the code relies on stays if the registers and the frame do. -/
theorem Body.keep (h : Body entry s) (hregs : ∀ r, 20 ≤ r → r ≤ 28 → s'.x r = s.x r)
    (hsp : s'.sp = s.sp) (hframe : ∀ a, InFrame entry a → s'.memory a = s.memory a) :
    Body entry s' where
  base := (hregs 20 (by decide) (by decide)).trans h.base
  length := (hregs 21 (by decide) (by decide)).trans h.length
  context := (hregs 22 (by decide) (by decide)).trans h.context
  put := (hregs 23 (by decide) (by decide)).trans h.put
  get := (hregs 24 (by decide) (by decide)).trans h.get
  trap := (hregs 25 (by decide) (by decide)).trans h.trap
  others r hlow hhigh :=
    (hregs r (UInt8.le_trans (by decide) hlow) hhigh).trans (h.others r hlow hhigh)
  sp := hsp.trans h.sp
  saved hj := by
    rw [← h.saved hj]
    refine Memory.read_congr ?_
    intro i hi
    have hi' : i.toNat < 8 := hi
    have hlt := savedRegs_lt hj
    exact hframe _ (inFrame_slot entry (by omega))

theorem Body.kept (h : Body entry s) (hs : Kept s s')
    (hframe : ∀ a, InFrame entry a → s'.memory a = s.memory a) : Body entry s' :=
  h.keep (fun r hlow _ => hs.regs r (UInt8.le_trans (by decide) hlow)) hs.sp hframe

theorem Body.call (h : Body entry s) {host : Host σ} (hkeep : Keeping host entry) {f : UInt64}
    (hf : f ∈ routines entry) : Body entry (s.call host f) := by
  obtain ⟨hregs, hsp, hframe⟩ := hkeep.call hf h.sp
  refine h.keep ?_ hsp hframe
  intro r hlow hhigh
  exact hregs r (UInt8.le_trans (by decide) hlow) (UInt8.le_trans hhigh (by decide))

/-- An address whose index is below the length lies on the tape. -/
theorem Body.inTape (h : Body entry s) {a : UInt64} (hin : a - s.x 20 < s.x 21) :
    InTape entry a := by
  rw [h.base, h.length] at hin
  exact ⟨a - entry.x 0, hin, by grind⟩

/-- The tape and the frame have no byte in common. -/
def Apart (entry : Cpu σ) : Prop := ∀ a, InTape entry a → ¬ InFrame entry a

theorem Apart.set (h : Apart entry) {a : UInt64} (ha : InTape entry a) (m : Memory) (b : UInt8) :
    ∀ a', InFrame entry a' → m.set a b a' = m a' := by
  intro a' ha'
  refine if_neg ?_
  rintro rfl
  exact h _ ha ha'

theorem read_slot (m : Memory) (entry : Cpu σ) {i j : Nat} (hi : i < 10) (hj : j < 10)
    (v : UInt64) :
    (m.write (slot entry i) v).read (slot entry j) =
      if j = i then v else m.read (slot entry j) := by
  by_cases h : j = i
  · rw [if_pos h, h, Memory.read_write]
  · rw [if_neg h]
    refine Memory.read_write_of_apart m v ?_
    intro b hb
    have hsub : slot entry j + b - slot entry i =
        UInt64.ofNat (8 * j) + b - UInt64.ofNat (8 * i) := by
      unfold slot
      grind
    rw [hsub, UInt64.lt_iff_toNat_lt]
    rw [UInt64.lt_iff_toNat_lt] at hb
    rw [UInt64.toNat_sub, UInt64.toNat_add, UInt64.toNat_ofNat', UInt64.toNat_ofNat']
    simp only [UInt64.reduceToNat] at hb ⊢
    omega

section
variable {host : Host σ} {code : Text} {place : Label → Int}

/-- The memory after the prologue. -/
def framed (entry : Cpu σ) : Memory :=
  (((((((((entry.memory.write (slot entry 0) (entry.x 29)).write (slot entry 1) (entry.x 30)).write
    (slot entry 2) (entry.x 19)).write (slot entry 3) (entry.x 20)).write
    (slot entry 4) (entry.x 21)).write (slot entry 5) (entry.x 22)).write
    (slot entry 6) (entry.x 23)).write (slot entry 7) (entry.x 24)).write
    (slot entry 8) (entry.x 25)).write (slot entry 9) (entry.x 26)

theorem read_framed {j : Nat} {r : Reg} (h : savedRegs[j]? = some r) :
    (framed entry).read (slot entry j) = entry.x r := by
  have hj := savedRegs_lt h
  have hcases : j = 0 ∨ j = 1 ∨ j = 2 ∨ j = 3 ∨ j = 4 ∨ j = 5 ∨ j = 6 ∨ j = 7 ∨ j = 8 ∨ j = 9 := by
    omega
  unfold framed
  simp (disch := omega) only [read_slot]
  rcases hcases with rfl | rfl | rfl | rfl | rfl | rfl | rfl | rfl | rfl | rfl <;>
    exact congrArg entry.x (Option.some.inj h)

/-- A word written in the frame changes nothing outside it. -/
theorem write_slot (m : Memory) {j : Nat} (hj : j < 10) (v : UInt64) {a : UInt64}
    (ha : ¬ InFrame entry a) : m.write (slot entry j) v a = m a := by
  refine if_neg ?_
  intro hlt
  have hlt' : (a - slot entry j).toNat < 8 := hlt
  have hframe := inFrame_slot entry (j := j) (i := a - slot entry j) (by omega)
  rw [show slot entry j + (a - slot entry j) = a by grind] at hframe
  exact ha hframe

theorem framed_outside {a : UInt64} (ha : ¬ InFrame entry a) : framed entry a = entry.memory a := by
  unfold framed
  simp (disch := first | exact ha | omega) only [write_slot]

theorem slot_zero (entry : Cpu σ) : slot entry 0 = entry.sp - 80 := UInt64.add_zero _

theorem sp_prologue (entry : Cpu σ) : entry.sp + (-frameSize).toUInt64 = slot entry 0 := by
  rw [slot_zero, UInt64.sub_eq_add_neg]
  rfl

theorem memory_prologue : (line host Generator.prologue entry).memory = framed entry := by
  have h : (line host Generator.prologue entry).memory =
      (((((((((entry.memory.write (entry.sp + (-frameSize).toUInt64) (entry.x 29)).write
        (entry.sp + (-frameSize).toUInt64 + 8) (entry.x 30)).write
        (entry.sp + (-frameSize).toUInt64 + 16) (entry.x 19)).write
        (entry.sp + (-frameSize).toUInt64 + 16 + 8) (entry.x 20)).write
        (entry.sp + (-frameSize).toUInt64 + 32) (entry.x 21)).write
        (entry.sp + (-frameSize).toUInt64 + 32 + 8) (entry.x 22)).write
        (entry.sp + (-frameSize).toUInt64 + 48) (entry.x 23)).write
        (entry.sp + (-frameSize).toUInt64 + 48 + 8) (entry.x 24)).write
        (entry.sp + (-frameSize).toUInt64 + 64) (entry.x 25)).write
        (entry.sp + (-frameSize).toUInt64 + 64 + 8) (entry.x 26) := rfl
  have h₂ : slot entry 0 + 16 = slot entry 2 := slot_add entry 0 2
  have h₄ : slot entry 0 + 32 = slot entry 4 := slot_add entry 0 4
  have h₆ : slot entry 0 + 48 = slot entry 6 := slot_add entry 0 6
  have h₈ : slot entry 0 + 64 = slot entry 8 := slot_add entry 0 8
  have hnext : ∀ j, slot entry j + 8 = slot entry (j + 1) := fun j => slot_add entry j 1
  rw [h, sp_prologue, h₂, h₄, h₆, h₈, hnext, hnext, hnext, hnext, hnext]
  rfl

theorem confined_prologue : ConfinedLine host entry Generator.prologue entry := by
  have hframe : ∀ j : Nat, j < 9 → ∀ i < 16,
      InFrame entry (entry.sp + (-frameSize).toUInt64 + UInt64.ofNat (8 * j) + i) := by
    intro j hj i hi
    have hi' : i.toNat < 16 := hi
    rw [sp_prologue, slot_add]
    exact inFrame_slot entry (by omega)
  refine ⟨?_, trivial, hframe 2 (by decide), hframe 4 (by decide), hframe 6 (by decide),
    hframe 8 (by decide), trivial, trivial, trivial, trivial, trivial, trivial, trivial, trivial⟩
  intro i hi
  have := hframe 0 (by decide) i hi
  rwa [show UInt64.ofNat (8 * 0) = 0 from rfl, UInt64.add_zero] at this

/-- The prologue comes to the code of the block, with the pointer in its register. -/
theorem prologue_runs (hold : Holds code place (Generator.prologue.map .emit) 0)
    (hpc : entry.pc = 0) :
    ∃ m s, Goes host code entry m entry s ∧ s.pc = (Generator.prologue.length : Nat) ∧
      Body entry s ∧ s.x 19 = entry.x 6 ∧ s.memory = framed entry ∧ s.world = entry.world ∧
      s.calls = entry.calls := by
  obtain ⟨hgo, hpc', hworld, hcalls⟩ := line_runs host hold hpc rfl confined_prologue
  refine ⟨_, _, hgo, ?_, ?_, rfl, memory_prologue, hworld, hcalls⟩
  · rw [hpc', Nat.zero_add]
  · refine ⟨rfl, rfl, rfl, rfl, rfl, rfl, ?_, ?_, ?_⟩
    · intro r hlow hhigh
      rcases eq_of_others hlow hhigh with rfl | rfl <;> rfl
    · exact (sp_prologue entry).trans (slot_zero entry)
    · intro j r hj
      rw [memory_prologue, read_framed hj]

/-- The epilogue up to its return. -/
def restore : List (Instr Label) := Generator.epilogue.dropLast

theorem confined_restore (h : Body entry s) : ConfinedLine host entry restore s := by
  have hframe : ∀ j : Nat, j < 9 → ∀ i < 16, InFrame entry (s.sp + UInt64.ofNat (8 * j) + i) := by
    intro j hj i hi
    have hi' : i.toNat < 16 := hi
    rw [h.sp]
    exact inFrame_slot entry (j := j) (by omega)
  refine ⟨trivial, hframe 8 (by decide), hframe 6 (by decide), hframe 4 (by decide),
    hframe 2 (by decide), ?_, trivial⟩
  intro i hi
  have := hframe 0 (by decide) i hi
  rwa [show UInt64.ofNat (8 * 0) = 0 from rfl, UInt64.add_zero] at this

/-- The epilogue restores what it must. -/
theorem restored (h : Body entry s) : Confined entry (line host restore s) .ret := by
  have hslot : ∀ {j : Nat} {r : Reg}, savedRegs[j]? = some r →
      s.memory.read (s.sp + UInt64.ofNat (8 * j)) = entry.x r := by
    intro j r hj
    rw [h.sp]
    exact h.saved hj
  have hsecond : ∀ {j : Nat} {r : Reg}, savedRegs[j + 1]? = some r →
      s.memory.read (s.sp + UInt64.ofNat (8 * j) + 8) = entry.x r := by
    intro j r hj
    rw [h.sp]
    exact (congrArg s.memory.read (slot_add entry j 1)).trans (h.saved hj)
  refine ⟨?_, ?_⟩
  · change s.sp + 80 = entry.sp
    rw [h.sp, UInt64.sub_add_cancel]
  · intro r hlow hhigh
    have hframe : s.memory.read s.sp = entry.x 29 := by
      have := hslot (j := 0) (r := 29) rfl
      rwa [show UInt64.ofNat (8 * 0) = 0 from rfl, UInt64.add_zero] at this
    rcases eq_of_preserved hlow hhigh with rfl | rfl | rfl | rfl | rfl | rfl | rfl | rfl | rfl |
      rfl | rfl | rfl
    · exact hslot (j := 2) rfl
    · exact hsecond (j := 2) rfl
    · exact hslot (j := 4) rfl
    · exact hsecond (j := 4) rfl
    · exact hslot (j := 6) rfl
    · exact hsecond (j := 6) rfl
    · exact hslot (j := 8) rfl
    · exact hsecond (j := 8) rfl
    · exact h.others 27 (by decide) (by decide)
    · exact h.others 28 (by decide) (by decide)
    · exact hframe
    · exact hslot (j := 1) rfl

/-- The epilogue returns with the pointer as its result. -/
theorem epilogue_runs {k : Nat} (hold : Holds code place (Generator.epilogue.map .emit) k)
    (hpc : s.pc = k) (h : Body entry s) :
    ∃ m s', Goes host code entry m s s' ∧ instrAt code s'.pc = some .ret ∧
      Confined entry s' .ret ∧ s'.x 0 = s.x 19 ∧ s'.memory = s.memory ∧ s'.world = s.world ∧
      s'.calls = s.calls := by
  have hsplit : Generator.epilogue.map Directive.emit =
      restore.map Directive.emit ++ [.emit .ret] := rfl
  rw [hsplit] at hold
  obtain ⟨hrestore, hret, -⟩ := holds_append.mp hold
  obtain ⟨hgo, hpc', hworld, hcalls⟩ := line_runs host hrestore hpc rfl (confined_restore h)
  refine ⟨_, _, hgo, ?_, restored h, rfl, rfl, hworld, hcalls⟩
  rw [hpc']
  exact hret

/-- The trap's report calls the trap routine with the index, then leaves. -/
theorem stub_runs {k : Nat} (hkeep : Keeping host entry)
    (hold : Holds code place (Generator.trapStub.map .emit) k) (hpc : s.pc = k)
    (h : Body entry s) :
    ∃ t s', Goes host code entry 4 s s' ∧ s'.pc = place Generator.exitLabel ∧
      Body entry s' ∧ Kept s t ∧ t.memory = s.memory ∧ t.x 0 = entry.x 2 ∧ t.x 1 = s.x 10 ∧
      s' = (t.call host (entry.x 5)).jump (place Generator.exitLabel - (k + 3 : Nat)) := by
  obtain ⟨hmov, hindex, hcall, hbranch, -⟩ := hold
  have hgo₁ : Goes host code entry 1 s ((s.setX 0 (s.x 22)).jump 1) :=
    goes_instr hpc hmov nofun trivial
  have hpc₁ := pc_next (s := s.setX 0 (s.x 22)) hpc
  generalize hs₁ : (s.setX 0 (s.x 22)).jump 1 = s₁ at hgo₁ hpc₁
  have hgo₂ : Goes host code entry 1 s₁ ((s₁.setX 1 (s₁.x 10)).jump 1) :=
    goes_instr hpc₁ hindex nofun trivial
  have hpc₂ := pc_next (s := s₁.setX 1 (s₁.x 10)) hpc₁
  have hkept : Kept s ((s₁.setX 1 (s₁.x 10)).jump 1) := by
    rw [← hs₁]
    exact (Kept.setX s (by decide) _ 1).trans (Kept.setX _ (by decide) _ 1)
  have hmem : ((s₁.setX 1 (s₁.x 10)).jump 1).memory = s.memory := by rw [← hs₁]; rfl
  have h₀ : ((s₁.setX 1 (s₁.x 10)).jump 1).x 0 = entry.x 2 := by
    rw [← hs₁]
    exact h.context
  have h₁ : ((s₁.setX 1 (s₁.x 10)).jump 1).x 1 = s.x 10 := by rw [← hs₁]; rfl
  generalize (s₁.setX 1 (s₁.x 10)).jump 1 = t at hgo₂ hpc₂ hkept hmem h₀ h₁
  have hbody : Body entry t := h.kept hkept fun a _ => by rw [hmem]
  have hf : t.get 25 ∈ routines entry := by
    rw [show t.get 25 = entry.x 5 from hbody.trap]
    simp [routines]
  have hgo₃ : Goes host code entry 1 t (t.call host (t.get 25)) :=
    goes_instr hpc₂ hcall nofun hf
  have hpc₃ : (t.call host (t.get 25)).pc = (k + 3 : Nat) := pc_next hpc₂
  have hgo₄ : Goes host code entry 1 (t.call host (t.get 25))
      ((t.call host (t.get 25)).jump (place Generator.exitLabel - (k + 3 : Nat))) :=
    goes_instr hpc₃ hbranch nofun trivial
  have hbody' := hbody.call hkeep hf
  rw [show t.get 25 = entry.x 5 from hbody.trap] at *
  refine ⟨t, _, ((hgo₁.trans hgo₂).trans hgo₃).trans hgo₄, pc_branch hpc₃ _, ?_, hkept, hmem, h₀,
    h₁, rfl⟩
  exact hbody'.keep (fun _ _ _ => rfl) rfl (fun _ _ => rfl)

end

end TapeLang.Native
