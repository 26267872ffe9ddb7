import TapeLang.Proofs.Steps

namespace TapeLang.Native

open A64 Layout

variable {σ : Type} {host : Host σ} {code : Text} {place : Label → Int} {entry s : Cpu σ}
  {o : Options}

/-- A step of a block comes to the next one or to the trap, and keeps what the code relies on. -/
theorem op_confined {op : Op} {n k : Nat} (hkeep : Keeping host entry) (hapart : Apart entry)
    (hb : o.boundsCheck = true) (hold : Holds code place (opCode o n op) k) (hpc : s.pc = k)
    (h : Body entry s) :
    ∃ m s', Goes host code entry m s s' ∧ Body entry s' ∧
      (s'.pc = (k + span (opCode o n op) : Nat) ∨
        op.offset?.isSome = true ∧ s'.pc = place Generator.trapLabel) := by
  have htrap : ∀ offset, op.offset? = some offset →
      ¬ s.x 19 + offset.toUInt64 - s.x 20 < s.x 21 →
      ∃ m s', Goes host code entry m s s' ∧ Body entry s' ∧
        (s'.pc = (k + span (opCode o n op) : Nat) ∨
          op.offset?.isSome = true ∧ s'.pc = place Generator.trapLabel) := by
    intro offset hop hout
    obtain ⟨m, s', hgo, hpc', hs', -⟩ := cell_traps hb (cell_of_op hop hold) hpc hout
    have h' : Body entry s' := h.kept hs'.kept fun a _ => by rw [hs'.memory]
    exact ⟨m, s', hgo, h', .inr ⟨by rw [hop]; rfl, hpc'⟩⟩
  cases op with
  | unknown => exact ⟨0, s, .refl s, h, .inl hpc⟩
  | move delta =>
    obtain ⟨m, s', hgo, hpc', -, hregs, hsp, hmem, -⟩ := move_step hold hpc
    refine ⟨m, s', hgo, h.keep ?_ hsp (fun a _ => by rw [hmem]), .inl hpc'⟩
    intro r hlow _
    refine hregs r ?_
    rintro rfl
    exact absurd hlow (by decide)
  | add delta offset =>
    by_cases hin : s.x 19 + offset.toUInt64 - s.x 20 < s.x 21
    · obtain ⟨m, s', hgo, hpc', hs', hmem⟩ := add_step h hpc hin hold
      refine ⟨m, s', hgo, h.kept hs' ?_, .inl hpc'⟩
      rw [hmem]
      exact hapart.set (h.inTape hin) _ _
    · exact htrap offset rfl hin
  | clear offset =>
    by_cases hin : s.x 19 + offset.toUInt64 - s.x 20 < s.x 21
    · obtain ⟨m, s', hgo, hpc', hs', hmem⟩ := clear_step h hpc hin hold
      refine ⟨m, s', hgo, h.kept hs' ?_, .inl hpc'⟩
      rw [hmem]
      exact hapart.set (h.inTape hin) _ _
    · exact htrap offset rfl hin
  | put offset =>
    by_cases hin : s.x 19 + offset.toUInt64 - s.x 20 < s.x 21
    · obtain ⟨m, t, hgo, hpc', ht, hmem, -, -⟩ := put_step h hpc hin hold
      have hbody : Body entry t := h.kept ht fun a _ => by rw [hmem]
      exact ⟨m, _, hgo, hbody.call hkeep (by simp [routines]), .inl hpc'⟩
    · exact htrap offset rfl hin
  | get offset =>
    by_cases hin : s.x 19 + offset.toUInt64 - s.x 20 < s.x 21
    · obtain ⟨m, t, s', hgo, hpc', ht, hmem, -, hs', hmem'⟩ := get_step h hpc hin hkeep hold
      have hbody : Body entry t := h.kept ht fun a _ => by rw [hmem]
      have hcall := hbody.call hkeep (f := entry.x 4) (by simp [routines])
      refine ⟨m, s', hgo, hcall.kept hs' ?_, .inl hpc'⟩
      rw [hmem']
      split
      · exact fun _ _ => rfl
      · exact hapart.set (h.inTape hin) _ _
    · exact htrap offset rfl hin

/-- The code goes on safely from a place, for a number of steps, whenever it gets there with what it
relies on in place. -/
def SafeAt (host : Host σ) (code : Text) (entry : Cpu σ) (N : Nat) (pc : Int) : Prop :=
  ∀ s : Cpu σ, s.pc = pc → Body entry s → Safe (Cpu.next host code) (Good code entry) N s

theorem SafeAt.mono {M N : Nat} (hle : M ≤ N) {pc : Int} (h : SafeAt host code entry N pc) :
    SafeAt host code entry M pc := fun s hpc hs => (h s hpc hs).mono hle

/-- A head of a loop is safe if its body is, and what follows the loop, and the trap. -/
theorem head_safe {n k N : Nat} (hb : o.boundsCheck = true)
    (hold : Holds code place (headCode o n) k)
    (htrap : SafeAt host code entry N (place Generator.trapLabel))
    (hstop : SafeAt host code entry N (place (label (n + 1))))
    (hbody : ∀ M < N, SafeAt host code entry M (k + span (headCode o n) : Nat)) :
    SafeAt host code entry N k := by
  intro s hpc h
  have hzero : s.x 19 + (0 : Int64).toUInt64 = s.x 19 := UInt64.add_zero _
  by_cases hin : s.x 19 - s.x 20 < s.x 21
  · obtain ⟨m, s', hgo, hs', hmem, hpc'⟩ := head_passes host hold hpc (fun _ => hin) (h.inTape hin)
    have h' : Body entry s' := h.kept hs' fun a _ => by rw [hmem]
    refine hgo.safe fun hm => ?_
    split at hpc'
    · exact (hstop s' hpc' h').mono (Nat.sub_le N _)
    · exact hbody _ (by omega) s' hpc' h'
  · rw [← hzero] at hin
    obtain ⟨m, s', hgo, hpc', hs', -⟩ := cell_traps hb (cell_of_head hold) hpc hin
    have h' : Body entry s' := h.kept hs'.kept fun a _ => by rw [hs'.memory]
    exact hgo.safe fun _ => (htrap s' hpc' h').mono (Nat.sub_le N _)

/-- The code of a block is safe if what follows it is, and the trap. The induction is on the block;
a loop comes back to its head after at least one step, so its own is on the number of steps. -/
theorem block_safe {b : Block} {n k N : Nat} (hkeep : Keeping host entry) (hapart : Apart entry)
    (hb : o.boundsCheck = true) (hold : Holds code place (blockCode o n b) k)
    (htrap : checksIn o b ≠ 0 → SafeAt host code entry N (place Generator.trapLabel))
    (hnext : SafeAt host code entry N (k + span (blockCode o n b) : Nat)) :
    SafeAt host code entry N k := by
  induction b generalizing n k N with
  | nil => exact hnext
  | step op rest ih =>
    obtain ⟨hop, hrest⟩ := holds_append.mp hold
    rw [blockCode, span_append, ← Nat.add_assoc] at hnext
    intro s hpc h
    obtain ⟨m, s', hgo, h', hpc' | ⟨hcell, hpc'⟩⟩ := op_confined hkeep hapart hb hop hpc h
    · refine hgo.safe fun _ => ?_
      refine ih hrest ?_ (hnext.mono (Nat.sub_le N m)) s' hpc' h'
      intro hchecks
      exact (htrap (by rw [checksIn]; omega)).mono (Nat.sub_le N m)
    · have hchecks : checksIn o (.step op rest) ≠ 0 := by
        rw [checksIn, hb, hcell]
        simp
      exact hgo.safe fun _ => (htrap hchecks s' hpc' h').mono (Nat.sub_le N m)
  | loop body rest ihBody ihRest =>
    have htrap' : SafeAt host code entry N (place Generator.trapLabel) := by
      apply htrap
      rw [checksIn, if_pos hb]
      omega
    obtain ⟨n₁, n₂, last, hhead, hbody, rfl, hback, hstop, hrest, hend⟩ := loop_holds hold
    have hafter : SafeAt host code entry N (place (label (n + 1))) := by
      rw [hstop]
      refine ihRest hrest (fun _ => htrap') ?_
      rwa [hend] at hnext
    suffices hloop : ∀ M ≤ N, SafeAt host code entry M k from hloop N (Nat.le_refl N)
    intro M
    induction M using Nat.strongRecOn with
    | ind M again =>
      intro hM
      refine head_safe hb hhead (htrap'.mono hM) (hafter.mono hM) ?_
      intro L hL
      refine ihBody hbody (fun _ => htrap'.mono (by omega)) ?_
      intro s hpc h
      have hgo : Goes host code entry 1 s (s.jump _) :=
        goes_instr hpc hback (by intro h; cases h) trivial
      refine hgo.safe fun _ => ?_
      exact again (L - 1) (by omega) (by omega) _ (pc_branch hpc k)
        (h.keep (fun _ _ _ => rfl) rfl fun _ _ => rfl)

/-- The epilogue is safe: it comes to a return, which is the end. -/
theorem epilogue_safe {k : Nat} (hold : Holds code place (Generator.epilogue.map .emit) k)
    (N : Nat) : SafeAt host code entry N k := by
  intro s hpc h
  obtain ⟨m, s', hgo, hret, hconf, -⟩ := epilogue_runs hold hpc h
  refine hgo.safe fun _ => ?_
  intro n _ t ht
  cases n with
  | zero =>
    cases ht
    exact ⟨_, hret, hconf⟩
  | succ n =>
    rw [after, Cpu.next_of_ret hret] at ht
    cases ht

theorem stub_safe {k : Nat} (hkeep : Keeping host entry)
    (hold : Holds code place (Generator.trapStub.map .emit) k) {N : Nat}
    (hexit : SafeAt host code entry N (place Generator.exitLabel)) :
    SafeAt host code entry N k := by
  intro s hpc h
  obtain ⟨t, s', hgo, hpc', h', -⟩ := stub_runs hkeep hold hpc h
  exact hgo.safe fun _ => (hexit s' hpc' h').mono (Nat.sub_le N 4)

/-- Checked code cannot escape. In every state that it comes to, it is at an instruction of its own
that loads and stores bytes of the tape only, saves and restores registers in its frame only, calls
the three routines only, and returns only with the stack pointer and the registers that a callee
preserves as they were. -/
theorem generate_confined (b : Block) (o : Options) (code : Code) (hgen : generate b o = .ok code)
    (hb : o.boundsCheck = true) (host : Host σ) (entry : Cpu σ) (hpc : entry.pc = 0)
    (hkeep : Keeping host entry) (hapart : Apart entry) (n : Nat) (s : Cpu σ)
    (hs : after (Cpu.next host code.bytes) n entry = some s) : Good code.bytes entry s := by
  obtain ⟨-, place, hold⟩ := generate_holds hgen
  obtain ⟨first, last, hpro, rfl, hblock, rfl, hexit, hepi, hstub⟩ := script_holds hold
  have hlast : SafeAt host code.bytes entry n _ := epilogue_safe hepi n
  have htrap : checksIn (o.adapt b) b ≠ 0 →
      SafeAt host code.bytes entry n (place Generator.trapLabel) := by
    intro hchecks
    obtain ⟨stub, hplace, hcode⟩ := hstub hchecks
    rw [hplace]
    exact stub_safe hkeep hcode (hexit ▸ hlast)
  obtain ⟨m, s₁, hgo, hpc₁, h₁, -⟩ := prologue_runs hpro hpc
  have hb' : (o.adapt b).boundsCheck = true := hb
  have hsafe := block_safe hkeep hapart hb' hblock htrap hlast s₁ hpc₁ h₁
  exact (hgo.safe fun _ => hsafe.mono (Nat.sub_le n m)) n (Nat.le_refl n) s hs

/-- A host whose routines answer seven and change a scratch register. -/
def answering : Host Unit := ⟨0, fun _ s => (s.setX 0 7).setX 9 0⟩

/-- A call with a tape of eight cells, its arguments given by a list. -/
def callWith (world : σ) (args : List UInt64) : Cpu σ where
  pc := 0
  x := fun r => args.getD r.toNat 0
  sp := 65536
  flags := ⟨false, false, false, false⟩
  memory := fun _ => 0
  world := world

/-- Reads, counts a cell down while it writes and adds to the cell two before it, and then leaves
the tape. -/
def countdown : Block :=
  .step (.get 0) (.loop (.step (.put 0) (.step (.add (-1) 0) (.step (.add 1 (-2)) .nil)))
    (.step (.move 300) (.step (.clear 5) .nil)))

theorem apart_callWith {world : σ} {rest : List UInt64} :
    Apart (callWith world (4096 :: 8 :: rest)) := by
  rintro a ⟨i, hi, rfl⟩ ⟨j, hj, heq⟩
  have hi' : i.toNat < 8 := hi
  have hj' : j.toNat < 80 := hj
  have h := congrArg UInt64.toNat heq
  have hbase : ((callWith world (4096 :: 8 :: rest)).x 0).toNat = 4096 := rfl
  have hframe : ((callWith world (4096 :: 8 :: rest)).sp - 80).toNat = 65456 := by
    change ((65536 : UInt64) - 80).toNat = 65456
    decide
  rw [UInt64.toNat_add, UInt64.toNat_add, hbase, hframe] at h
  omega

theorem keeping_answering (entry : Cpu Unit) : Keeping answering entry where
  regs _ _ s _ r hlow _ := by
    have h₀ : r ≠ 0 := by rintro rfl; exact absurd hlow (by decide)
    have h₉ : r ≠ 9 := by rintro rfl; exact absurd hlow (by decide)
    simp only [answering, Cpu.setX_x, if_neg h₀, if_neg h₉]
  sp _ _ _ _ := rfl
  frame _ _ _ _ _ _ := rfl

theorem generate_confined_countdown :
    ∃ code, generate countdown { farBranches := true } = .ok code ∧
      ∀ n s, after (Cpu.next answering code.bytes) n (callWith () [4096, 8, 1, 10, 11, 12, 4099]) =
        some s → Good code.bytes (callWith () [4096, 8, 1, 10, 11, 12, 4099]) s := by
  have hok : (generate countdown { farBranches := true }).isOk = true := by decide +kernel
  cases hgen : generate countdown { farBranches := true } with
  | error e =>
    rw [hgen] at hok
    cases hok
  | ok code =>
    exact ⟨code, rfl, generate_confined countdown _ code hgen rfl answering _ rfl
      (keeping_answering _) apart_callWith⟩

end TapeLang.Native
