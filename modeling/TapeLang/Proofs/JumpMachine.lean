import TapeLang.Proofs.Links
import TapeLang.Proofs.Simulation
import TapeLang.Proofs.Trace

namespace TapeLang

/-- Instructions in the middle of a run. -/
structure Jumper (δ : Type) where
  pc : Nat := 0
  cells : Array UInt8
  pointer : Int64
  device : δ
  /-- Why the run was cut short. -/
  halt : Option Stop := none

namespace Jumper

variable {δ : Type}

/-- The value under the pointer, which may be off the tape at either end. -/
def current? (s : Jumper δ) : Option UInt8 :=
  if s.pointer < 0 then none else s.cells[s.pointer.toNatClampNeg]?

def write (b : UInt8) (s : Jumper δ) : Jumper δ :=
  { s with cells := s.cells.setIfInBounds s.pointer.toNatClampNeg b }

def advance (s : Jumper δ) : Jumper δ := { s with pc := s.pc + 1 }

def stopAt (s : Jumper δ) (why : Stop) : Jumper δ := { s with halt := some why }

/-- The run is cut short by the bounds of the tape. -/
def trap (s : Jumper δ) : Jumper δ :=
  s.stopAt (.trap { address := s.pointer, tapeSize := Int64.ofNat s.cells.size })

/-- What an instruction does that needs the value `b` under the pointer. -/
def work [Device δ] (i : Instruction) (b : UInt8) (s : Jumper δ) : Option (Jumper δ) :=
  match i.kind with
  | .increment => some (s.write (b + 1)).advance
  | .decrement => some (s.write (b - 1)).advance
  | .output => some { s with device := Device.put b s.device }.advance
  | .input =>
    match Device.get s.device with
    | .byte b device => some { s.write b with device }.advance
    | .keep device => some { s with device }.advance
    | .crash reason device => some ({ s with device }.stopAt (.crash reason))
  | .loopOpen =>
    if b = 0 then i.partner.map fun j => { s with pc := j + 1 } else some s.advance
  | _ => some s.advance

/-- One instruction. None at the end of the instructions, or once the run was cut short. -/
def next [Device δ] (is : Array Instruction) (s : Jumper δ) : Option (Jumper δ) :=
  if s.halt.isSome then none
  else
    match is[s.pc]? with
    | none => none
    | some i =>
      match i.kind with
      | .moveLeft => some { s with pointer := s.pointer - 1 }.advance
      | .moveRight => some { s with pointer := s.pointer + 1 }.advance
      | .loopClose => i.partner.map fun j => { s with pc := j }
      | .other _ => some s.advance
      | _ =>
        match s.current? with
        | none => some s.trap
        | some b => s.work i b

def config (s : Jumper δ) : Config δ := ⟨s.cells, s.pointer, s.device⟩

/-- The start of the instructions in the state that a machine is in. -/
def ofMachine (m : Machine δ) : Jumper δ :=
  { cells := m.cells, pointer := m.pointer, device := m.device }

/-- The run comes to the end of the instructions. -/
def Finishes [Device δ] (is : Array Instruction) (s s' : Jumper δ) : Prop :=
  ∃ n, after (next is) n s = some s' ∧ s'.halt = none ∧ s'.pc = is.size

/-- The run is cut short. -/
def Halts [Device δ] (is : Array Instruction) (s : Jumper δ) (why : Stop) (s' : Jumper δ) : Prop :=
  ∃ n, after (next is) n s = some s' ∧ s'.halt = some why

theorem current_config (s : Jumper δ) : s.current? = s.config.current? := by
  unfold current? Config.current? Config.index?
  by_cases hneg : s.pointer < 0
  · rw [if_pos hneg, if_neg fun h => Int64.not_le.mpr hneg h.1]
    rfl
  · have hle : 0 ≤ s.pointer := Int64.not_lt.mp hneg
    rw [if_neg hneg]
    by_cases hlt : s.pointer.toNatClampNeg < s.cells.size
    · have hin : 0 ≤ s.config.pointer ∧
          s.config.pointer.toNatClampNeg < s.config.cells.size := ⟨hle, hlt⟩
      rw [if_pos hin]
      simp [Config.load, config, hlt]
    · rw [if_neg fun h => hlt h.2]
      simpa using hlt

/-- The index of the cell under the pointer is the pointer. -/
theorem index_pointer {s : Jumper δ} {n : Nat} (h : s.config.index? s.pointer = some n) :
    n = s.pointer.toNatClampNeg := by
  unfold Config.index? at h
  split at h
  · exact (Option.some.inj h).symm
  · cases h

theorem config_write {s : Jumper δ} {n : Nat} (h : s.config.index? s.pointer = some n) (b : UInt8) :
    (s.write b).config = s.config.store n b := by
  rw [index_pointer h]
  rfl

/-- The run is at an index and holds a configuration. -/
def At (pc : Nat) (c : Config δ) (s : Jumper δ) : Prop := s.pc = pc ∧ s.halt = none ∧ s.config = c

/-- The run was cut short and holds a configuration. -/
def Cut (why : Stop) (c : Config δ) (s : Jumper δ) : Prop := s.halt = some why ∧ s.config = c

variable [Device δ] {is : Array Instruction} {s : Jumper δ} {i : Instruction}

/-- An instruction that needs the cell under the pointer does its work, or traps off the tape. -/
theorem next_cell (hs : s.halt = none) (found : is[s.pc]? = some i)
    (hkind : i.kind = .increment ∨ i.kind = .decrement ∨ i.kind = .output ∨ i.kind = .input ∨
      i.kind = .loopOpen) :
    next is s = match s.config.index? s.pointer with
      | none => some s.trap
      | some n => s.work i (s.config.load n) := by
  have hcell : next is s = match s.current? with
      | none => some s.trap
      | some b => s.work i b := by
    unfold next
    rw [hs, found]
    rcases hkind with h | h | h | h | h <;> simp [h]
  rw [hcell, current_config, Config.current?, show s.config.pointer = s.pointer from rfl]
  cases s.config.index? s.pointer <;> rfl

/-- An instruction that is no bracket does what its step does. -/
theorem next_op {op : Op} (hs : s.halt = none) (found : is[s.pc]? = some i)
    (acts : i.kind.op? = some op) :
    ∃ s', next is s = some s' ∧ (s.config.act op).Meets (At (s.pc + 1) · s') (Cut · · s') := by
  have hzero : s.config.pointer + 0 = s.pointer := Int64.add_zero _
  cases hk : i.kind with
  | other code =>
    rw [hk] at acts
    cases acts
  | loopOpen =>
    rw [hk] at acts
    cases acts
  | loopClose =>
    rw [hk] at acts
    cases acts
  | moveLeft =>
    rw [hk] at acts
    cases acts
    refine ⟨{ s with pointer := s.pointer - 1 }.advance, ?_, rfl, hs, ?_⟩
    · simp [next, hs, found, hk]
    · simp [config, advance, Config.move, Int64.sub_eq_add_neg]
  | moveRight =>
    rw [hk] at acts
    cases acts
    refine ⟨{ s with pointer := s.pointer + 1 }.advance, ?_, rfl, hs, rfl⟩
    simp [next, hs, found, hk]
  | increment =>
    rw [hk] at acts
    cases acts
    rw [next_cell hs found (by simp [hk])]
    simp only [Config.act, Config.access, hzero]
    cases hi : s.config.index? s.pointer with
    | none => exact ⟨s.trap, rfl, rfl, rfl⟩
    | some n =>
      refine ⟨(s.write (s.config.load n + 1)).advance, by simp only [work, hk], rfl, hs, ?_⟩
      exact config_write hi _
  | decrement =>
    rw [hk] at acts
    cases acts
    rw [next_cell hs found (by simp [hk])]
    simp only [Config.act, Config.access, hzero]
    cases hi : s.config.index? s.pointer with
    | none => exact ⟨s.trap, rfl, rfl, rfl⟩
    | some n =>
      refine ⟨(s.write (s.config.load n - 1)).advance, by simp only [work, hk], rfl, hs, ?_⟩
      have hminus : s.config.load n - 1 = s.config.load n + Machine.lowByte (-1) := by
        rw [show Machine.lowByte (-1) = -1 by decide, UInt8.sub_eq_add_neg]
      rw [hminus]
      exact config_write hi _
  | output =>
    rw [hk] at acts
    cases acts
    rw [next_cell hs found (by simp [hk])]
    simp only [Config.act, Config.access, hzero]
    cases hi : s.config.index? s.pointer with
    | none => exact ⟨s.trap, rfl, rfl, rfl⟩
    | some n =>
      exact ⟨{ s with device := Device.put (s.config.load n) s.device }.advance,
        by simp only [work, hk], rfl, hs, rfl⟩
  | input =>
    rw [hk] at acts
    cases acts
    rw [next_cell hs found (by simp [hk])]
    simp only [Config.act, Config.access, hzero]
    cases hi : s.config.index? s.pointer with
    | none => exact ⟨s.trap, rfl, rfl, rfl⟩
    | some n =>
      simp only [work, hk, show s.config.device = s.device from rfl]
      cases Device.get s.device with
      | byte b device =>
        refine ⟨_, rfl, rfl, hs, ?_⟩
        change { (s.write b).config with device } = _
        rw [config_write hi]
      | keep device => exact ⟨_, rfl, rfl, hs, rfl⟩
      | crash reason device => exact ⟨_, rfl, rfl, rfl⟩

/-- An opening bracket tests the cell under the pointer. -/
theorem next_open {j offset : Nat} (hs : s.halt = none)
    (found : is[s.pc]? = some ⟨.loopOpen, offset, some j⟩) :
    next is s = match s.config.current? with
      | none => some s.trap
      | some b => if b = 0 then some { s with pc := j + 1 } else some s.advance := by
  rw [next_cell hs found (by simp), Config.current?, show s.config.pointer = s.pointer from rfl]
  cases s.config.index? s.pointer <;> rfl

theorem next_close {j offset : Nat} (hs : s.halt = none)
    (found : is[s.pc]? = some ⟨.loopClose, offset, some j⟩) :
    next is s = some { s with pc := j } := by
  simp [next, hs, found]

/-- The instructions as a step machine on which blocks are laid out. -/
def simulation (δ : Type) [Device δ] (is : Array Instruction) :
    Simulation δ (next is : Jumper δ → Option (Jumper δ)) Nat where
  Code b p q := Linked is p q b
  Here := At
  Stopped := Cut
  nil := by
    intro p q h
    cases h
    rfl
  step := by
    intro op rest p q h
    cases h with
    | step found acts hrest =>
      refine ⟨p + 1, hrest, ?_⟩
      rintro c s ⟨rfl, hs, rfl⟩
      obtain ⟨s', hnext, hmeets⟩ := next_op hs found acts
      exact ⟨1, s', after_one hnext, hmeets⟩
  loop := by
    intro body rest p q h
    cases h with
    | @loop _ j _ _ _ _ _ opens closes inside hrest =>
      refine ⟨p + 1, j, j + 1, inside, hrest, ?_, ?_⟩
      · rintro c s ⟨rfl, hs, rfl⟩
        have hnext := next_open hs opens
        cases hc : s.config.current? with
        | none =>
          rw [hc] at hnext
          exact ⟨1, s.trap, after_one hnext, rfl, rfl⟩
        | some b =>
          simp only [hc] at hnext
          by_cases hb : b = 0
          · rw [if_pos hb] at hnext
            refine ⟨1, _, after_one hnext, ?_⟩
            change if b = 0 then _ else _
            rw [if_pos hb]
            exact ⟨rfl, hs, rfl⟩
          · rw [if_neg hb] at hnext
            refine ⟨1, _, after_one hnext, ?_⟩
            change if b = 0 then _ else _
            rw [if_neg hb]
            exact ⟨Nat.one_pos, rfl, hs, rfl⟩
      · rintro c s ⟨rfl, hs, rfl⟩
        exact ⟨1, _, after_one (next_close hs closes), rfl, hs, rfl⟩

theorem next_of_halt {why : Stop} (h : s.halt = some why) : next is s = none := by
  simp [next, h]

theorem next_at_end (h : s.pc = is.size) : next is s = none := by
  simp [next, h]

end Jumper

namespace Program

open Jumper

variable {δ : Type} [Device δ]

/-- The instructions follow the block of their program, whatever comes of it. -/
theorem jumps_follow {source : Source} {p : Program} (h : parse source = .ok p) {w : Watch}
    (hw : w.Quiet) (m : Machine δ) (fuel : Nat) :
    (simulation δ p.instructions).Follows fuel p.instructions.size (Jumper.ofMachine m)
      (m.exec w fuel p.block) :=
  (simulation δ p.instructions).follows_exec hw fuel (linked_of_parse h) ⟨rfl, rfl, rfl⟩

section
variable {source : Source} {p : Program} (h : parse source = .ok p) {w : Watch} (hw : w.Quiet)
  {m : Machine δ}
include h hw

theorem finishes_of_done {fuel : Nat} {m' : Machine δ} (hrun : m.exec w fuel p.block = .done m') :
    ∃ s, Finishes p.instructions (.ofMachine m) s ∧ s.config = m'.config := by
  have hfollow := jumps_follow h hw m fuel
  rw [hrun] at hfollow
  obtain ⟨n, s, hs, hpc, hhalt, hconfig⟩ := hfollow
  exact ⟨s, ⟨n, hs, hhalt, hpc⟩, hconfig⟩

theorem halts_of_stopped {fuel : Nat} {why : Stop} {m' : Machine δ}
    (hrun : m.exec w fuel p.block = .stopped why m') :
    ∃ s, Halts p.instructions (.ofMachine m) why s ∧ s.config = m'.config := by
  have hfollow := jumps_follow h hw m fuel
  rw [hrun] at hfollow
  obtain ⟨n, s, hs, hhalt, hconfig⟩ := hfollow
  exact ⟨s, ⟨n, hs, hhalt⟩, hconfig⟩

theorem runs_of_outOfFuel {fuel : Nat} (hrun : m.exec w fuel p.block = .outOfFuel) :
    ∃ s, after (next p.instructions) fuel (Jumper.ofMachine m) = some s := by
  have hfollow := jumps_follow h hw m fuel
  rw [hrun] at hfollow
  obtain ⟨n, s, hs, hle⟩ := hfollow
  exact after_of_le hle hs

/-- Where the instructions come to an end, the block does, and in the same way. -/
theorem ending_of_final {n : Nat} {s : Jumper δ}
    (hs : after (next p.instructions) n (.ofMachine m) = some s)
    (hfinal : next p.instructions s = none) :
    (∃ fuel m', m.exec w fuel p.block = .done m' ∧ m'.config = s.config ∧ s.halt = none) ∨
      ∃ fuel why m', m.exec w fuel p.block = .stopped why m' ∧ m'.config = s.config ∧
        s.halt = some why := by
  cases hrun : m.exec w (n + 1) p.block with
  | done m' =>
    obtain ⟨s', ⟨k, hs', hhalt, hpc⟩, hconfig⟩ := finishes_of_done h hw hrun
    obtain rfl := final_unique hs hfinal hs' (next_at_end hpc)
    exact .inl ⟨n + 1, m', hrun, hconfig.symm, hhalt⟩
  | stopped why m' =>
    obtain ⟨s', ⟨k, hs', hhalt⟩, hconfig⟩ := halts_of_stopped h hw hrun
    obtain rfl := final_unique hs hfinal hs' (next_of_halt hhalt)
    exact .inr ⟨n + 1, why, m', hrun, hconfig.symm, hhalt⟩
  | outOfFuel =>
    -- the block would take more steps than the instructions have
    obtain ⟨s', hs'⟩ := runs_of_outOfFuel h hw hrun
    have := after_le_of_final hs hfinal hs'
    omega

end

/-- The block of a program ends as its instructions do, for every device and every state to start
in. One finishes if the other does, one is cut short if the other is and for the same reason, and
then the cells, the pointer and the device are the same; otherwise both run forever. With a traced
device, the requests are part of what is the same. -/
theorem block_jumps (source : Source) (p : Program) (h : parse source = .ok p) (w : Watch)
    (hw : w.Quiet) (m : Machine δ) :
    (∀ c, (∃ fuel m', m.exec w fuel p.block = .done m' ∧ m'.config = c) ↔
      ∃ s, Finishes p.instructions (.ofMachine m) s ∧ s.config = c) ∧
    (∀ why c, (∃ fuel m', m.exec w fuel p.block = .stopped why m' ∧ m'.config = c) ↔
      ∃ s, Halts p.instructions (.ofMachine m) why s ∧ s.config = c) ∧
    ((∀ fuel, m.exec w fuel p.block = .outOfFuel) ↔
      ∀ n, ∃ s, after (next p.instructions) n (Jumper.ofMachine m) = some s) := by
  refine ⟨?_, ?_, ?_⟩
  · intro c
    constructor
    · rintro ⟨fuel, m', hrun, rfl⟩
      exact finishes_of_done h hw hrun
    · rintro ⟨s, ⟨n, hs, hhalt, hpc⟩, rfl⟩
      rcases ending_of_final h hw hs (next_at_end hpc) with
        ⟨fuel, m', hrun, hconfig, -⟩ | ⟨fuel, why, m', -, -, hhalt'⟩
      · exact ⟨fuel, m', hrun, hconfig⟩
      · rw [hhalt] at hhalt'
        cases hhalt'
  · intro why c
    constructor
    · rintro ⟨fuel, m', hrun, rfl⟩
      exact halts_of_stopped h hw hrun
    · rintro ⟨s, ⟨n, hs, hhalt⟩, rfl⟩
      rcases ending_of_final h hw hs (next_of_halt hhalt) with
        ⟨fuel, m', -, -, hhalt'⟩ | ⟨fuel, why', m', hrun, hconfig, hhalt'⟩
      · rw [hhalt] at hhalt'
        cases hhalt'
      · rw [hhalt] at hhalt'
        cases hhalt'
        exact ⟨fuel, m', hrun, hconfig⟩
  · constructor
    · intro hforever n
      exact runs_of_outOfFuel h hw (hforever n)
    · intro hforever fuel
      have hgoes : ∀ n s, after (next p.instructions) n (Jumper.ofMachine m) = some s →
          next p.instructions s ≠ none := by
        intro n s hs hfinal
        obtain ⟨s', hs'⟩ := hforever (n + 1)
        have := after_le_of_final hs hfinal hs'
        omega
      cases hrun : m.exec w fuel p.block with
      | outOfFuel => rfl
      | done m' =>
        obtain ⟨s, ⟨n, hs, -, hpc⟩, -⟩ := finishes_of_done h hw hrun
        exact absurd (next_at_end hpc) (hgoes n s hs)
      | stopped why m' =>
        obtain ⟨s, ⟨n, hs, hhalt⟩, -⟩ := halts_of_stopped h hw hrun
        exact absurd (next_of_halt hhalt) (hgoes n s hs)

/-- A loop inside a loop, and then a step to the left of the tape. -/
def nested : Source := { file := [], bytes := text ",[>++[<.>-]<-]<+" }

theorem block_jumps_nested :
    ∃ p s, parse nested = .ok p ∧
      Halts p.instructions
        (.ofMachine (Block.startTraced { cells := #[0, 0] } { reader := .ofBytes [2] }))
        (.trap ⟨-1, 2⟩) s ∧
      s.device.trace = [.got 2, .put 2, .put 2, .put 1, .put 1] := by
  have htrap : (parse nested).toOption.map (fun p => (p.block.runTraced 9 {} { cells := #[0, 0] }
      { reader := .ofBytes [2] }).trap?) = some (some ⟨-1, 2⟩) := by decide +kernel
  have htrace : (parse nested).toOption.map (fun p => p.block.exchanges? 9 {} { cells := #[0, 0] }
      { reader := .ofBytes [2] }) = some (some [.got 2, .put 2, .put 2, .put 1, .put 1]) := by
    decide +kernel
  cases hp : parse nested with
  | error e =>
    rw [hp] at htrap
    cases htrap
  | ok p =>
    rw [hp] at htrap htrace
    have htrap : (p.block.runTraced 9 {} { cells := #[0, 0] }
        { reader := .ofBytes [2] }).trap? = some ⟨-1, 2⟩ := Option.some.inj htrap
    have htrace : p.block.exchanges? 9 {} { cells := #[0, 0] } { reader := .ofBytes [2] } =
        some [.got 2, .put 2, .put 2, .put 1, .put 1] := Option.some.inj htrace
    have hjumps := block_jumps nested p hp {} (Watch.quiet_interval _)
      (Block.startTraced { cells := #[0, 0] } { reader := .ofBytes [2] })
    unfold Block.exchanges? at htrace
    cases hrun : p.block.runTraced 9 {} { cells := #[0, 0] } { reader := .ofBytes [2] } with
    | done m =>
      rw [hrun] at htrap
      cases htrap
    | outOfFuel =>
      rw [hrun] at htrap
      cases htrap
    | stopped why m =>
      rw [hrun] at htrap htrace
      cases why with
      | trap t =>
        cases htrap
        obtain ⟨s, hs, hconfig⟩ := (hjumps.2.1 _ _).mp ⟨9, m, hrun, rfl⟩
        refine ⟨p, s, rfl, hs, ?_⟩
        rw [show s.device = m.device from congrArg Config.device hconfig]
        exact Option.some.inj htrace
      | cancelled => cases htrap
      | unknownStep => cases htrap
      | crash reason => cases htrap

end Program

end TapeLang
