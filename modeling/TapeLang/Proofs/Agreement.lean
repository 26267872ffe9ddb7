import TapeLang.Proofs.Confinement
import TapeLang.Proofs.Hosting

namespace TapeLang

/-- On a tape short enough, the signed bounds of an address are one unsigned bound. -/
theorem Config.index_unsigned {δ : Type} (c : Config δ) (hshort : c.cells.size < 2 ^ 63)
    (address : Int64) :
    c.index? address =
      if address.toUInt64.toNat < c.cells.size then some address.toUInt64.toNat else none := by
  have hcond := BitVec.toInt_eq_toNat_cond address.toBitVec
  have hnat : address.toUInt64.toNat = address.toBitVec.toNat := rfl
  have hint : address.toInt = address.toBitVec.toInt := rfl
  have hlt := address.toBitVec.isLt
  have hclamp : address.toNatClampNeg = address.toInt.toNat := rfl
  have hle : 0 ≤ address ↔ 0 ≤ address.toInt := by
    rw [Int64.le_iff_toInt_le]
    rfl
  unfold index?
  simp only [hle, hclamp, hint, hnat]
  by_cases hneg : 2 * address.toBitVec.toNat < 2 ^ 64
  · rw [if_pos hneg] at hcond
    rw [hcond, Int.toNat_natCast]
    simp
  · rw [if_neg hneg] at hcond
    rw [if_neg (by omega), if_neg (by omega)]

namespace Native

open A64 Layout

variable {σ : Type} {host : Host σ} {view : σ → Registry} {code : Text} {place : Label → Int}
  {entry s s' : Cpu σ} {o : Options} {c : Config (Traced Console)}

/-- The code is running and the processor holds a configuration of the machine; `trap` is what has
been reported, if anything has. -/
structure Holding (view : σ → Registry) (entry : Cpu σ) (trap : Option Trap)
    (c : Config (Traced Console)) (s : Cpu σ) : Prop where
  body : Body entry s
  pointer : s.x 19 = entry.x 0 + c.pointer.toUInt64
  length : (entry.x 1).toNat = c.cells.size
  short : c.cells.size < 2 ^ 63
  cells : ∀ i < c.cells.size, s.memory (entry.x 0 + UInt64.ofNat i) = c.load i
  session : (view s.world).find? (entry.x 2) =
    some { console := c.device.device, tapeSize := Int64.ofNat c.cells.size, trap }
  requests : exchangesOf entry s.calls = c.device.trace
  trapped : Trapped entry s ↔ trap.isSome = true
  steady : c.device.device.Steady

namespace Holding

variable {trap : Option Trap}

theorem index (h : Holding view entry trap c s) (offset : Int64) :
    s.x 19 + offset.toUInt64 - s.x 20 = (c.pointer + offset).toUInt64 := by
  rw [h.pointer, h.body.base, Int64.toUInt64_add]
  grind

/-- The check of an address on the tape succeeds, and the address is that of its cell. -/
theorem inside (h : Holding view entry trap c s) {offset : Int64} {i : Nat}
    (hi : c.index? (c.pointer + offset) = some i) :
    s.x 19 + offset.toUInt64 - s.x 20 < s.x 21 ∧ i < c.cells.size ∧
      s.x 19 + offset.toUInt64 = entry.x 0 + UInt64.ofNat i := by
  rw [c.index_unsigned h.short] at hi
  split at hi
  · rename_i hlt
    cases hi
    refine ⟨?_, hlt, ?_⟩
    · rw [h.index, h.body.length, UInt64.lt_iff_toNat_lt, h.length]
      exact hlt
    · rw [UInt64.ofNat_toNat, ← h.index, h.body.base]
      grind
  · cases hi

/-- The check of an address off the tape fails. -/
theorem outside (h : Holding view entry trap c s) {offset : Int64}
    (hi : c.index? (c.pointer + offset) = none) :
    ¬ s.x 19 + offset.toUInt64 - s.x 20 < s.x 21 := by
  rw [c.index_unsigned h.short] at hi
  split at hi
  · cases hi
  · rename_i hge
    rw [h.index, h.body.length, UInt64.lt_iff_toNat_lt, h.length]
    exact hge

theorem inTape (h : Holding view entry trap c s) {i : Nat} (hi : i < c.cells.size) :
    InTape entry (entry.x 0 + UInt64.ofNat i) := by
  have hshort := h.short
  refine ⟨UInt64.ofNat i, ?_, rfl⟩
  rw [UInt64.lt_iff_toNat_lt, UInt64.toNat_ofNat', h.length, Nat.mod_eq_of_lt (by omega)]
  exact hi

/-- Different cells have different addresses. -/
theorem address_inj (h : Holding view entry trap c s) {i j : Nat} (hi : i < c.cells.size)
    (hj : j < c.cells.size) (heq : entry.x 0 + UInt64.ofNat i = entry.x 0 + UInt64.ofNat j) :
    i = j := by
  have hshort := h.short
  have hij : UInt64.ofNat i = UInt64.ofNat j := by grind
  have hnat := congrArg UInt64.toNat hij
  rwa [UInt64.toNat_ofNat', UInt64.toNat_ofNat', Nat.mod_eq_of_lt (by omega),
    Nat.mod_eq_of_lt (by omega)] at hnat

theorem kept (h : Holding view entry trap c s) (hs : Kept s s') (hmem : s'.memory = s.memory) :
    Holding view entry trap c s' where
  body := h.body.kept hs fun _ _ => by rw [hmem]
  pointer := (hs.regs 19 (by decide)).trans h.pointer
  length := h.length
  short := h.short
  cells i hi := by rw [hmem, h.cells i hi]
  session := by rw [hs.world, h.session]
  requests := by rw [hs.calls, h.requests]
  trapped := (trapped_congr hs.calls).trans h.trapped
  steady := h.steady

/-- A byte stored in a cell's address is stored in the cell. -/
theorem store (h : Holding view entry trap c s) (hapart : Apart entry) (hs : Kept s s') {i : Nat}
    (hi : i < c.cells.size) {b : UInt8}
    (hmem : s'.memory = s.memory.set (entry.x 0 + UInt64.ofNat i) b) :
    Holding view entry trap (c.store i b) s' := by
  have hsize : (c.store i b).cells.size = c.cells.size := Array.size_setIfInBounds
  refine ⟨h.body.kept hs ?_, (hs.regs 19 (by decide)).trans h.pointer, by rw [hsize, h.length],
    by rw [hsize]; exact h.short, ?_, by rw [hs.world, h.session, hsize]; rfl,
    by rw [hs.calls, h.requests]; rfl, (trapped_congr hs.calls).trans h.trapped, h.steady⟩
  · rw [hmem]
    exact hapart.set (h.inTape hi) _ _
  · intro j hj
    rw [hsize] at hj
    rw [hmem, Memory.set]
    by_cases hij : i = j
    · subst hij
      simp [Config.load, Config.store, hi]
    · rw [if_neg fun heq => hij (h.address_inj hj hi heq).symm, h.cells j hj]
      simp [Config.load, Config.store, Array.getD_eq_getD_getElem?, hij]

theorem move (h : Holding view entry trap c s) {delta : Int64}
    (hptr : s'.x 19 = s.x 19 + delta.toUInt64) (hregs : ∀ r, r ≠ 19 → s'.x r = s.x r)
    (hsp : s'.sp = s.sp) (hmem : s'.memory = s.memory) (hworld : s'.world = s.world)
    (hcalls : s'.calls = s.calls) : Holding view entry trap (c.move delta) s' where
  body := by
    refine h.body.keep ?_ hsp fun _ _ => by rw [hmem]
    intro r hlow _
    refine hregs r ?_
    rintro rfl
    exact absurd hlow (by decide)
  pointer := by
    rw [hptr, h.pointer, Config.move, Int64.toUInt64_add, UInt64.add_assoc]
  length := h.length
  short := h.short
  cells i hi := by
    rw [hmem]
    exact h.cells i hi
  session := by
    rw [hworld]
    exact h.session
  requests := by
    rw [hcalls]
    exact h.requests
  trapped := (trapped_congr hcalls).trans h.trapped
  steady := h.steady

/-- A call of put or get changes the device alone. -/
theorem call (h : Holding view entry trap c s) (hserve : Serving host view entry) {f : UInt64}
    (hf : f = entry.x 3 ∨ f = entry.x 4) {device : Traced Console}
    (hsession : (view (s.call host f).world).find? (entry.x 2) =
      some { console := device.device, tapeSize := Int64.ofNat c.cells.size, trap })
    (hrequests : exchangesOf entry (s.call host f).calls = device.trace)
    (hsteady : device.device.Steady) :
    Holding view entry trap { c with device } (s.call host f) := by
  have hmem : f ∈ routines entry := by
    rcases hf with rfl | rfl <;> simp [routines]
  have hregs := (hserve.toKeeping.call hmem h.body.sp).1
  refine ⟨h.body.call hserve.toKeeping hmem, ?_, h.length, h.short, ?_, hsession, hrequests,
    (hserve.trapped_call hf).trans h.trapped, hsteady⟩
  · exact (hregs 19 (by decide) (by decide)).trans h.pointer
  · intro i hi
    rw [hserve.call_tape hmem h.body.sp (h.inTape hi)]
    exact h.cells i hi

theorem put (h : Holding view entry trap c s) (hserve : Serving host view entry) {b : UInt8}
    (h₀ : s.x 0 = entry.x 2) (h₁ : s.x 1 = b.toUInt64) :
    Holding view entry trap { c with device := Device.put b c.device }
      (s.call host (entry.x 3)) := by
  have hb : (s.x 1).toUInt8 = b := by rw [h₁, UInt8.toUInt8_toUInt64]
  refine h.call hserve (.inl rfl) ?_ ?_ (h.steady.put b)
  · rw [hserve.call_put h.body.sp, h₀, Registry.find_put h.session, hb]
    rfl
  · rw [Serving.exchanges_put, hb, h.requests]
    rfl

/-- The get routine answers as the device does, and marks a missing byte in bit 31. -/
theorem get (h : Holding view entry trap c s) (hserve : Serving host view entry)
    (h₀ : s.x 0 = entry.x 2) :
    (∃ b device, Device.get c.device = .byte b device ∧
      ((s.call host (entry.x 4)).x 0).toNat.testBit 31 = false ∧
      ((s.call host (entry.x 4)).x 0).toUInt8 = b ∧
      Holding view entry trap { c with device } (s.call host (entry.x 4))) ∨
    ∃ device, Device.get c.device = .keep device ∧
      ((s.call host (entry.x 4)).x 0).toNat.testBit 31 = true ∧
      Holding view entry trap { c with device } (s.call host (entry.x 4)) := by
  have hrequests := hserve.exchanges_get s
  rw [h.requests] at hrequests
  obtain ⟨registry, hanswer, hfind⟩ := Registry.get_live h.session
  rw [← h₀] at hanswer
  rcases h.steady.get with ⟨b, console, hget, hsteady⟩ | ⟨console, hget, hsteady⟩
  · rw [hget] at hanswer hfind
    obtain ⟨hresult, hworld⟩ := hserve.call_get h.body.sp hanswer
    rw [hresult, testBit_byte, UInt8.toUInt8_toUInt64] at hrequests
    refine .inl ⟨b, c.device.note (.got b) console, ?_, ?_, ?_, ?_⟩
    · exact Traced.get_byte hget
    · rw [hresult, testBit_byte]
    · rw [hresult, UInt8.toUInt8_toUInt64]
    · refine h.call hserve (.inr rfl) ?_ hrequests hsteady
      rw [hworld]
      exact hfind
  · rw [hget] at hanswer hfind
    obtain ⟨hresult, hworld⟩ := hserve.call_get h.body.sp hanswer
    rw [hresult, testBit_keepValue] at hrequests
    refine .inr ⟨c.device.note .kept console, ?_, ?_, ?_⟩
    · exact Traced.get_keep hget
    · rw [hresult, testBit_keepValue]
    · refine h.call hserve (.inr rfl) ?_ hrequests hsteady
      rw [hworld]
      exact hfind

end Holding

/-- The trap's report stands in the code. -/
def Reporting (code : Text) (place : Label → Int) : Prop :=
  ∃ stub : Nat, place Generator.trapLabel = stub ∧
    Holds code place (Generator.trapStub.map .emit) stub

/-- The processor has stopped as the machine does: checked code is about to report the trap.
Unchecked code has no say in what happens off the tape. -/
def Stopping (view : σ → Registry) (entry : Cpu σ) (code : Text) (place : Label → Int) (o : Options)
    (why : Stop) (c : Config (Traced Console)) (s : Cpu σ) : Prop :=
  ∃ t, why = .trap t ∧ (o.boundsCheck = true →
    Reporting code place ∧ s.pc = place Generator.trapLabel ∧ Holding view entry none c s ∧
      s.x 10 = t.address.toUInt64 ∧ t.tapeSize = Int64.ofNat c.cells.size)

/-- The processor is at an index and holds a configuration. -/
def At (view : σ → Registry) (entry : Cpu σ) (p : Nat) (c : Config (Traced Console))
    (s : Cpu σ) : Prop := s.pc = p ∧ Holding view entry none c s

/-- Code that looks for a cell off the tape stops. -/
theorem cell_stops {n k : Nat} {offset : Int64} (hold : Holds code place (cellCode o n offset) k)
    (hpc : s.pc = k) (h : Holding view entry none c s)
    (hreport : o.boundsCheck = true → Reporting code place)
    (hi : c.index? (c.pointer + offset) = none) :
    ∃ m s', after (Cpu.next host code) m s = some s' ∧
      Stopping view entry code place o (c.trap (c.pointer + offset)) c s' := by
  by_cases hb : o.boundsCheck = true
  · obtain ⟨m, s', hgo, hpc', hs', hindex⟩ := cell_traps hb hold hpc (h.outside hi)
    have hgo : Goes host code entry m s s' := hgo
    refine ⟨m, s', hgo.after, _, rfl, ?_⟩
    rw [h.index] at hindex
    exact fun _ => ⟨hreport hb, hpc', h.kept hs'.kept hs'.memory, hindex, rfl⟩
  · exact ⟨0, s, rfl, _, rfl, fun hb' => absurd hb' hb⟩

/-- The code of a step does what the step does. -/
theorem op_agrees {op : Op} {n k : Nat} (hserve : Serving host view entry) (hapart : Apart entry)
    (hop : op ≠ .unknown) (hold : Holds code place (opCode o n op) k) (hpc : s.pc = k)
    (h : Holding view entry none c s)
    (hreport : o.boundsCheck = true → op.offset?.isSome = true → Reporting code place) :
    ∃ m s', after (Cpu.next host code) m s = some s' ∧
      (c.act op).Meets (At view entry (k + span (opCode o n op)) · s')
        (Stopping view entry code place o · · s') := by
  cases op with
  | unknown => exact absurd rfl hop
  | move delta =>
    obtain ⟨m, s', hgo, hpc', hptr, hregs, hsp, hmem, hworld, hcalls⟩ := move_step hold hpc
    have hgo : Goes host code entry m s s' := hgo
    exact ⟨m, s', hgo.after, hpc', h.move hptr hregs hsp hmem hworld hcalls⟩
  | add delta offset =>
    simp only [Config.act, Config.access]
    cases hi : c.index? (c.pointer + offset) with
    | none => exact cell_stops (cell_of_op rfl hold) hpc h (fun hb => hreport hb rfl) hi
    | some i =>
      obtain ⟨hin, hlt, ha⟩ := h.inside hi
      obtain ⟨m, s', hgo, hpc', hs', hmem⟩ := add_step h.body hpc hin hold
      rw [ha, h.cells i hlt] at hmem
      exact ⟨m, s', hgo.after, hpc', h.store hapart hs' hlt hmem⟩
  | clear offset =>
    simp only [Config.act, Config.access]
    cases hi : c.index? (c.pointer + offset) with
    | none => exact cell_stops (cell_of_op rfl hold) hpc h (fun hb => hreport hb rfl) hi
    | some i =>
      obtain ⟨hin, hlt, ha⟩ := h.inside hi
      obtain ⟨m, s', hgo, hpc', hs', hmem⟩ := clear_step h.body hpc hin hold
      rw [ha] at hmem
      exact ⟨m, s', hgo.after, hpc', h.store hapart hs' hlt hmem⟩
  | put offset =>
    simp only [Config.act, Config.access]
    cases hi : c.index? (c.pointer + offset) with
    | none => exact cell_stops (cell_of_op rfl hold) hpc h (fun hb => hreport hb rfl) hi
    | some i =>
      obtain ⟨hin, hlt, ha⟩ := h.inside hi
      obtain ⟨m, t, hgo, hpc', ht, hmem, h₀, h₁⟩ := put_step h.body hpc hin hold
      rw [ha, h.cells i hlt] at h₁
      exact ⟨m, _, hgo.after, hpc', (h.kept ht hmem).put hserve h₀ h₁⟩
  | get offset =>
    simp only [Config.act, Config.access]
    cases hi : c.index? (c.pointer + offset) with
    | none => exact cell_stops (cell_of_op rfl hold) hpc h (fun hb => hreport hb rfl) hi
    | some i =>
      obtain ⟨hin, hlt, ha⟩ := h.inside hi
      obtain ⟨m, t, s', hgo, hpc', ht, hmem, h₀, hs', hmem'⟩ :=
        get_step h.body hpc hin hserve.toKeeping hold
      refine ⟨m, s', hgo.after, ?_⟩
      rw [ha] at hmem'
      rcases (h.kept ht hmem).get hserve h₀ with
        ⟨b, device, hget, hbit, hbyte, hcall⟩ | ⟨device, hget, hbit, hcall⟩
      · rw [hbit, hbyte] at hmem'
        rw [hget]
        exact ⟨hpc', hcall.store hapart hs' hlt hmem'⟩
      · rw [hbit] at hmem'
        rw [hget]
        exact ⟨hpc', hcall.kept hs' hmem'⟩

/-- The head of a loop tests the cell under the pointer. -/
theorem head_agrees {n k : Nat} (hold : Holds code place (headCode o n) k) (hpc : s.pc = k)
    (h : Holding view entry none c s) (hreport : o.boundsCheck = true → Reporting code place) :
    ∃ m s', after (Cpu.next host code) m s = some s' ∧
      match c.current? with
      | none => Stopping view entry code place o (c.trap c.pointer) c s'
      | some b =>
        if b = 0 then s'.pc = place (label (n + 1)) ∧ Holding view entry none c s'
        else 0 < m ∧ s'.pc = (k + span (headCode o n) : Nat) ∧ Holding view entry none c s' := by
  have hzero : c.pointer + 0 = c.pointer := Int64.add_zero _
  have haddress : s.x 19 + (0 : Int64).toUInt64 = s.x 19 := UInt64.add_zero _
  unfold Config.current?
  rw [← hzero]
  cases hi : c.index? (c.pointer + 0) with
  | none => exact cell_stops (cell_of_head hold) hpc h hreport hi
  | some i =>
    obtain ⟨hin, hlt, ha⟩ := h.inside hi
    rw [haddress] at hin ha
    obtain ⟨m, s', hgo, hs', hmem, hpc'⟩ :=
      head_passes host hold hpc (fun _ => hin) (h.body.inTape hin)
    have hholds := h.kept hs' hmem
    rw [ha, h.cells i hlt] at hpc'
    refine ⟨m + 1, s', hgo.after, ?_⟩
    simp only [Option.map_some]
    split at hpc'
    · rename_i hcell
      rw [if_pos hcell]
      exact ⟨hpc', hholds⟩
    · rename_i hcell
      rw [if_neg hcell]
      exact ⟨Nat.succ_pos m, hpc', hholds⟩

/-- The code of a block stands from one index up to another, with the trap's report behind it if it
has a check. -/
def Laid (code : Text) (place : Label → Int) (o : Options) (b : Block) (p q : Nat) : Prop :=
  ∃ n, Holds code place (blockCode o n b) p ∧ q = p + span (blockCode o n b) ∧ b.Known ∧
    (checksIn o b ≠ 0 → Reporting code place)

namespace Laid

variable {p q : Nat} {body rest : Block}

theorem nil (h : Laid code place o .nil p q) : p = q := by
  obtain ⟨n, -, rfl, -⟩ := h
  rfl

theorem step {op : Op} (hserve : Serving host view entry) (hapart : Apart entry)
    (h : Laid code place o (.step op rest) p q) :
    ∃ p', Laid code place o rest p' q ∧ ∀ c s, At view entry p c s →
      ∃ n s', after (Cpu.next host code) n s = some s' ∧
        (c.act op).Meets (At view entry p' · s') (Stopping view entry code place o · · s') := by
  obtain ⟨n, hold, rfl, ⟨hop, hknown⟩, hreport⟩ := h
  obtain ⟨hcode, hrest⟩ := holds_append.mp hold
  refine ⟨_, ⟨_, hrest, ?_, hknown, ?_⟩, ?_⟩
  · rw [blockCode, span_append, Nat.add_assoc]
  · intro hchecks
    exact hreport (by rw [checksIn]; omega)
  · rintro c s ⟨hpc, h⟩
    have hreport' : o.boundsCheck = true → op.offset?.isSome = true → Reporting code place := by
      intro hb hcell
      apply hreport
      rw [checksIn, hb, hcell]
      simp
    exact op_agrees hserve hapart hop hcode hpc h hreport'

theorem loop (h : Laid code place o (.loop body rest) p q) :
    ∃ first last out, Laid code place o body first last ∧ Laid code place o rest out q ∧
      (∀ c s, At view entry p c s → ∃ n s', after (Cpu.next host code) n s = some s' ∧
        match c.current? with
        | none => Stopping view entry code place o (c.trap c.pointer) c s'
        | some b => if b = 0 then At view entry out c s' else 0 < n ∧ At view entry first c s') ∧
      ∀ c s, At view entry last c s →
        ∃ n s', after (Cpu.next host code) n s = some s' ∧ At view entry p c s' := by
  obtain ⟨n, hold, rfl, ⟨hbody, hrest⟩, hreport⟩ := h
  obtain ⟨n₁, n₂, last, hhead, hin, hlast, hback, hout, hafter, hend⟩ := loop_holds hold
  have hchecks : checksIn o (.loop body rest) =
      (if o.boundsCheck then 1 else 0) + checksIn o body + checksIn o rest := rfl
  refine ⟨p + span (headCode o n), last, last + 1, ⟨n₁, hin, hlast, hbody, ?_⟩,
    ⟨n₂, hafter, hend, hrest, ?_⟩, ?_, ?_⟩
  · intro hne
    exact hreport (by omega)
  · intro hne
    exact hreport (by omega)
  · rintro c s ⟨hpc, h⟩
    have hreport' : o.boundsCheck = true → Reporting code place := by
      intro hb
      apply hreport
      rw [hchecks, if_pos hb]
      omega
    unfold At
    rw [← hout]
    exact head_agrees hhead hpc h hreport'
  · rintro c s ⟨hpc, h⟩
    have hgo : Goes host code entry 1 s (s.jump _) := goes_instr hpc hback nofun trivial
    exact ⟨1, _, hgo.after, pc_branch hpc p, h.kept ⟨fun _ _ => rfl, rfl, rfl, rfl⟩ rfl⟩

end Laid

/-- Generated code as a step machine on which blocks are laid out. A place is the index of an
instruction. -/
def codeSimulation (hserve : Serving host view entry) (hapart : Apart entry) (code : Text)
    (place : Label → Int) (o : Options) :
    Simulation (Traced Console) (Cpu.next host code) Nat where
  Code := Laid code place o
  Here := At view entry
  Stopped := Stopping view entry code place o
  nil := Laid.nil
  step := Laid.step hserve hapart
  loop := Laid.loop

/-- Code is called with a tape and a session: its base, its length, the session's handle, the host
routines and the address under the pointer. -/
structure Called (host : Host σ) (view : σ → Registry) (entry : Cpu σ) (tape : Tape)
    (console : Console) : Prop where
  start : entry.pc = 0
  length : (entry.x 1).toNat = tape.cells.size
  pointer : entry.x 6 = entry.x 0 + tape.pointer.toUInt64
  short : tape.cells.size < 2 ^ 63
  cells : ∀ i < tape.cells.size, entry.memory (entry.x 0 + UInt64.ofNat i) = tape.cells.getD i 0
  apart : Apart entry
  session : (view entry.world).find? (entry.x 2) =
    some { console, tapeSize := Int64.ofNat tape.cells.size }
  fresh : entry.calls = []
  steady : console.Steady
  serving : Serving host view entry

/-- The prologue comes to the block with the start of the machine's run. -/
theorem prologue_agrees {tape : Tape} {console : Console}
    (hcall : Called host view entry tape console)
    (hold : Holds code place (Generator.prologue.map .emit) 0) :
    ∃ m s, after (Cpu.next host code) m entry = some s ∧ s.pc = (Generator.prologue.length : Nat) ∧
      Holding view entry none (Block.startTraced tape console).config s := by
  obtain ⟨m, s, hgo, hpc, hbody, hptr, hmem, hworld, hcalls⟩ := prologue_runs hold hcall.start
  have hgo : Goes host code entry m entry s := hgo
  have hsize : (entry.x 1).toNat < 2 ^ 63 := hcall.length ▸ hcall.short
  refine ⟨m, s, hgo.after, hpc, hbody, hptr.trans hcall.pointer, hcall.length, hcall.short, ?_,
    by rw [hworld]; exact hcall.session, by rw [hcalls, hcall.fresh]; rfl, ?_, hcall.steady⟩
  · intro i hi
    have hi' : i < tape.cells.size := hi
    have hlen := hcall.length
    have htape : InTape entry (entry.x 0 + UInt64.ofNat i) := by
      refine ⟨UInt64.ofNat i, ?_, rfl⟩
      rw [UInt64.lt_iff_toNat_lt, UInt64.toNat_ofNat', Nat.mod_eq_of_lt (by omega)]
      omega
    rw [hmem, framed_outside (hcall.apart _ htape)]
    exact hcall.cells i hi
  · unfold Trapped
    simp [hcalls, hcall.fresh]

/-- What the code has come to on its return is what the machine ended with. -/
structure Agrees (view : σ → Registry) (entry : Cpu σ) (trap : Option Trap)
    (c : Config (Traced Console)) (s : Cpu σ) : Prop where
  length : (entry.x 1).toNat = c.cells.size
  cells : ∀ i < c.cells.size, s.memory (entry.x 0 + UInt64.ofNat i) = c.load i
  pointer : s.x 0 - entry.x 0 = c.pointer.toUInt64
  requests : exchangesOf entry s.calls = c.device.trace
  session : (view s.world).find? (entry.x 2) =
    some { console := c.device.device, tapeSize := Int64.ofNat c.cells.size, trap }
  trapped : Trapped entry s ↔ trap.isSome = true
  restored : s.sp = entry.sp ∧ ∀ r, 19 ≤ r → r ≤ 30 → s.x r = entry.x r

/-- The epilogue returns with what the processor holds. -/
theorem epilogue_agrees (host : Host σ) {k : Nat} {trap : Option Trap}
    (hold : Holds code place (Generator.epilogue.map .emit) k) (hpc : s.pc = k)
    (h : Holding view entry trap c s) :
    ∃ s', Cpu.Returns host code s s' ∧ Agrees view entry trap c s' := by
  obtain ⟨m, s', hgo, hret, hconf, hx, hmem, hworld, hcalls⟩ := epilogue_runs hold hpc h.body
  have hgo : Goes host code entry m s s' := hgo
  refine ⟨s', ⟨m, hgo.after, hret⟩, h.length, ?_, ?_, by rw [hcalls, h.requests],
    by rw [hworld, h.session], (trapped_congr hcalls).trans h.trapped, hconf⟩
  · intro i hi
    rw [hmem, h.cells i hi]
  · rw [hx, h.pointer]
    grind

/-- The trap's report calls the trap routine with the address and then leaves. -/
theorem report_agrees {t : Trap} {last : Nat} (hserve : Serving host view entry)
    (hreport : Reporting code place) (hexit : place Generator.exitLabel = last)
    (hpc : s.pc = place Generator.trapLabel) (h : Holding view entry none c s)
    (hindex : s.x 10 = t.address.toUInt64) (hsize : t.tapeSize = Int64.ofNat c.cells.size) :
    ∃ m s', after (Cpu.next host code) m s = some s' ∧ s'.pc = last ∧
      Holding view entry (some t) c s' := by
  obtain ⟨stub, hplace, hold⟩ := hreport
  obtain ⟨u, s', hgo, hpc', hbody, hu, hmem, h₀, h₁, hs'⟩ :=
    stub_runs hserve.toKeeping hold (hpc.trans hplace) h.body
  have hheld := h.kept hu hmem
  have htrap : entry.x 5 ∈ routines entry := by simp [routines]
  have hregs := (hserve.toKeeping.call htrap hheld.body.sp).1
  refine ⟨4, s', hgo.after, hpc'.trans hexit, hbody, ?_, h.length, h.short, ?_, ?_, ?_, ?_,
    h.steady⟩
  · rw [hs', Cpu.jump_x, hregs 19 (by decide) (by decide), hheld.pointer]
  · intro i hi
    rw [hs', Cpu.jump_memory, hserve.call_tape htrap hheld.body.sp (h.inTape hi), hheld.cells i hi]
  · rw [hs', Cpu.jump_world, hserve.call_trap hheld.body.sp, h₀, h₁, hindex,
      Registry.find_trap hheld.session, ← hsize]
    rfl
  · rw [hs', Cpu.jump_calls, hserve.exchanges_trap, hheld.requests]
  · rw [hs']
    exact ⟨fun _ => rfl, fun _ => ⟨_, List.mem_append_right _ (List.mem_singleton_self _), rfl⟩⟩

/-- What the code does, by the outcome of the machine's run with some fuel. -/
def CodeFollows (host : Host σ) (view : σ → Registry) (entry : Cpu σ) (code : Text) (o : Options)
    (fuel : Nat) : Outcome (Machine (Traced Console)) → Prop
  | .done m => ∃ s, Cpu.Returns host code entry s ∧ Agrees view entry none m.config s
  | .stopped why m => ∃ t, why = .trap t ∧ (o.boundsCheck = true →
    ∃ s, Cpu.Returns host code entry s ∧ Agrees view entry (some t) m.config s)
  | .outOfFuel => ∃ n s, after (Cpu.next host code) n entry = some s ∧ fuel ≤ n

theorem generate_follows {b : Block} {code : Code} (hgen : generate b o = .ok code) {tape : Tape}
    {console : Console} (hcall : Called host view entry tape console) {w : Watch} (hw : w.Quiet)
    (fuel : Nat) :
    CodeFollows host view entry code.bytes o fuel (b.runTraced fuel w tape console) := by
  obtain ⟨hknown, place, hold⟩ := generate_holds hgen
  obtain ⟨first, last, hpro, rfl, hblock, hlast, hexit, hepi, hstub⟩ := script_holds hold
  obtain ⟨m, s, hs, hpc, hstart⟩ := prologue_agrees hcall hpro
  have hlaid : Laid code.bytes place (o.adapt b) b Generator.prologue.length last :=
    ⟨2, hblock, hlast, hknown, hstub⟩
  have hat : At view entry Generator.prologue.length (Block.startTraced tape console).config s :=
    ⟨hpc, hstart⟩
  have hrun := (codeSimulation hcall.serving hcall.apart code.bytes place (o.adapt b)).follows_exec
    hw fuel hlaid hat
  unfold Block.runTraced
  cases ho : (Block.startTraced tape console).exec w fuel b with
  | done m' =>
    rw [ho] at hrun
    obtain ⟨n, s₁, hs₁, hpc₁, h₁⟩ := hrun
    obtain ⟨s₂, hret, hagree⟩ := epilogue_agrees host hepi hpc₁ h₁
    exact ⟨s₂, (hret.prepend hs₁).prepend hs, hagree⟩
  | stopped why m' =>
    rw [ho] at hrun
    obtain ⟨n, s₁, hs₁, t, hwhy, htrap⟩ := hrun
    refine ⟨t, hwhy, ?_⟩
    intro hb
    obtain ⟨hreport, hpc₁, h₁, hindex, hsize⟩ := htrap hb
    obtain ⟨j, s₂, hs₂, hpc₂, h₂⟩ :=
      report_agrees hcall.serving hreport hexit hpc₁ h₁ hindex hsize
    obtain ⟨s₃, hret, hagree⟩ := epilogue_agrees host hepi hpc₂ h₂
    exact ⟨s₃, ((hret.prepend hs₂).prepend hs₁).prepend hs, hagree⟩
  | outOfFuel =>
    rw [ho] at hrun
    obtain ⟨n, s₁, hs₁, hn⟩ := hrun
    exact ⟨m + n, s₁, after_trans hs hs₁, by omega⟩

/-- Code that is still running after any number of steps never returns. -/
theorem not_returns_of_running {code : Text}
    (h : ∀ fuel, ∃ n s, after (Cpu.next host code) n entry = some s ∧ fuel ≤ n) (s : Cpu σ) :
    ¬ Cpu.Returns host code entry s := by
  rintro ⟨n, hn, hret⟩
  obtain ⟨m, s', hm, hle⟩ := h (n + 1)
  have := after_le_of_final hn (Cpu.next_of_ret hret) hm
  omega

/-- Generated code agrees with the machine. Where the machine finishes, the code returns with the
same cells, pointer and requests and has called no trap. Where the machine stops, checked code
returns as well and has reported the machine's trap. Where the machine runs forever, the code does.
Whether checked code returns is therefore what the machine decides. -/
theorem generate_agrees (b : Block) (o : Options) (code : Code) (hgen : generate b o = .ok code)
    (host : Host σ) (view : σ → Registry) (entry : Cpu σ) (tape : Tape) (console : Console)
    (hcall : Called host view entry tape console) (w : Watch) (hw : w.Quiet) :
    (∀ fuel m, b.runTraced fuel w tape console = .done m →
      ∃ s, Cpu.Returns host code.bytes entry s ∧ Agrees view entry none m.config s) ∧
    (o.boundsCheck = true → ∀ fuel why m, b.runTraced fuel w tape console = .stopped why m →
      ∃ t s, why = .trap t ∧ Cpu.Returns host code.bytes entry s ∧
        Agrees view entry (some t) m.config s) ∧
    ((∀ fuel, b.runTraced fuel w tape console = .outOfFuel) →
      ∀ s, ¬ Cpu.Returns host code.bytes entry s) ∧
    (o.boundsCheck = true → ((∃ s, Cpu.Returns host code.bytes entry s) ↔
      ∃ fuel, b.runTraced fuel w tape console ≠ .outOfFuel)) ∧
    ∀ s s', Cpu.Returns host code.bytes entry s → Cpu.Returns host code.bytes entry s' →
      s = s' := by
  have hfollows := generate_follows hgen hcall hw
  have hdone : ∀ fuel m, b.runTraced fuel w tape console = .done m →
      ∃ s, Cpu.Returns host code.bytes entry s ∧ Agrees view entry none m.config s := by
    intro fuel m hrun
    have h := hfollows fuel
    rw [hrun] at h
    exact h
  have hstopped : o.boundsCheck = true → ∀ fuel why m,
      b.runTraced fuel w tape console = .stopped why m →
      ∃ t s, why = .trap t ∧ Cpu.Returns host code.bytes entry s ∧
        Agrees view entry (some t) m.config s := by
    intro hb fuel why m hrun
    have h := hfollows fuel
    rw [hrun] at h
    obtain ⟨t, hwhy, h⟩ := h
    obtain ⟨s, hret, hagree⟩ := h hb
    exact ⟨t, s, hwhy, hret, hagree⟩
  have hforever : (∀ fuel, b.runTraced fuel w tape console = .outOfFuel) →
      ∀ s, ¬ Cpu.Returns host code.bytes entry s := by
    intro hrun
    refine not_returns_of_running fun fuel => ?_
    have h := hfollows fuel
    rw [hrun] at h
    exact h
  refine ⟨hdone, hstopped, hforever, ?_, fun s s' => Cpu.Returns.unique⟩
  intro hb
  constructor
  · rintro ⟨s, hret⟩
    apply Classical.byContradiction
    intro hnone
    exact hforever (fun fuel => Classical.not_not.mp (not_exists.mp hnone fuel)) s hret
  · rintro ⟨fuel, hfuel⟩
    cases hrun : b.runTraced fuel w tape console with
    | done m =>
      obtain ⟨s, hret, -⟩ := hdone fuel m hrun
      exact ⟨s, hret⟩
    | stopped why m =>
      obtain ⟨t, s, -, hret, -⟩ := hstopped hb fuel why m hrun
      exact ⟨s, hret⟩
    | outOfFuel => exact absurd hrun hfuel

/-- A host whose routines act on a registry and clear a scratch register. -/
def serving : Host Registry where
  origin := 0
  routine f s :=
    if f = 10 then { s.setX 9 0 with world := s.world.put (s.x 0) (s.x 1) }
    else if f = 11 then
      { s.setX 0 ((s.world.get (s.x 0)).1.toOption.getD 0) with world := (s.world.get (s.x 0)).2 }
    else { s.setX 9 0 with world := s.world.trap (s.x 0) (s.x 1) }

/-- A console with one byte of input. -/
def threeConsole : Console := { reader := .ofBytes [3] }

/-- A call on a session with that console and a tape of eight cells. -/
def servedCall : Cpu Registry :=
  callWith { sessions := [(1, { console := threeConsole, tapeSize := 8 })], last := 1 }
    [4096, 8, 1, 10, 11, 12, 4099]

theorem steady_threeConsole : threeConsole.Steady := by
  intro n reason h
  cases n with
  | zero => cases h
  | succ n => cases h

theorem serving_servedCall : Serving serving id servedCall where
  regs f _ s _ r hlow _ := by
    have h₀ : r ≠ 0 := by rintro rfl; exact absurd hlow (by decide)
    have h₉ : r ≠ 9 := by rintro rfl; exact absurd hlow (by decide)
    simp only [serving]
    split
    · exact if_neg h₉
    · split
      · exact if_neg h₀
      · exact if_neg h₉
  sp f _ s _ := by
    simp only [serving]
    split
    · rfl
    · split <;> rfl
  frame f _ s _ a _ := by
    simp only [serving]
    split
    · rfl
    · split <;> rfl
  tape f _ s _ a _ := by
    simp only [serving]
    split
    · rfl
    · split <;> rfl
  distinct := by decide
  put _ _ := rfl
  get s _ value registry h := by
    have hget : s.world.get (s.x 0) = (.ok value, registry) := h
    change (s.setX 0 ((s.world.get (s.x 0)).1.toOption.getD 0)).x 0 = value ∧
      (s.world.get (s.x 0)).2 = registry
    rw [hget]
    exact ⟨rfl, rfl⟩
  trap _ _ := rfl

theorem called_servedCall :
    Called serving id servedCall { cells := Array.replicate 8 0, pointer := 3 } threeConsole where
  start := rfl
  length := rfl
  pointer := by decide
  short := by decide
  cells i hi := by
    simp only [Array.size_replicate] at hi
    simp [servedCall, callWith, Array.getD, hi]
  apart := apart_callWith
  session := rfl
  fresh := rfl
  steady := steady_threeConsole
  serving := serving_servedCall

theorem generate_agrees_countdown :
    ∃ code m s, generate countdown { farBranches := true } = .ok code ∧
      countdown.runTraced 9 {} { cells := Array.replicate 8 0, pointer := 3 } threeConsole =
        .stopped (.trap ⟨308, 8⟩) m ∧
      countdown.exchanges? 9 {} { cells := Array.replicate 8 0, pointer := 3 } threeConsole =
        some [.got 3, .put 3, .put 2, .put 1] ∧
      Cpu.Returns serving code.bytes servedCall s ∧
      Agrees id servedCall (some ⟨308, 8⟩) m.config s := by
  have hok : (generate countdown { farBranches := true }).isOk = true := by decide +kernel
  have htrap : (countdown.runTraced 9 {} { cells := Array.replicate 8 0, pointer := 3 }
      threeConsole).trap? = some ⟨308, 8⟩ := by
    decide +kernel
  cases hgen : generate countdown { farBranches := true } with
  | error e =>
    rw [hgen] at hok
    cases hok
  | ok code =>
    have hagrees := generate_agrees countdown _ code hgen serving id servedCall _ threeConsole
      called_servedCall {} (Watch.quiet_interval _)
    cases hrun : countdown.runTraced 9 {}
        { cells := Array.replicate 8 0, pointer := 3 } threeConsole with
    | done m =>
      rw [hrun] at htrap
      cases htrap
    | outOfFuel =>
      rw [hrun] at htrap
      cases htrap
    | stopped why m =>
      obtain ⟨t, s, rfl, hret, hs⟩ := hagrees.2.1 rfl 9 why m hrun
      rw [hrun] at htrap
      cases htrap
      exact ⟨code, m, s, rfl, rfl, by decide +kernel, hret, hs⟩

end Native

end TapeLang
