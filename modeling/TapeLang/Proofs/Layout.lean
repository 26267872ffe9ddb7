import TapeLang.Native.Generate
import TapeLang.Proofs.Linking

namespace TapeLang.Native

open A64

/-- The number of labels made. -/
def labelsIn : List Directive → Nat
  | [] => 0
  | .label :: rest => labelsIn rest + 1
  | .emit _ :: rest => labelsIn rest
  | .bind _ :: rest => labelsIn rest

@[simp] theorem labelsIn_append (ds es : List Directive) :
    labelsIn (ds ++ es) = labelsIn ds + labelsIn es := by
  induction ds with
  | nil => simp [labelsIn]
  | cons d ds ih =>
    cases d with
    | label =>
      simp only [List.cons_append, labelsIn, ih]
      omega
    | emit | bind => exact ih

theorem labelsIn_emits (is : List (Instr Label)) : labelsIn (is.map .emit) = 0 := by
  induction is with
  | nil => rfl
  | cons i is ih => exact ih

namespace Layout

/-- The label with a number. -/
def label (n : Nat) : Label := Int64.ofNat n

section
variable (o : Options)

/-- The register that addresses the cell at an offset. -/
def cellReg (offset : Int64) : Reg :=
  if offset = 0 then Reg.pointer
  else if offset > 0 then if o.boundsCheck then Reg.address else Reg.pointer
  else Reg.address

/-- The displacement from that register. -/
def cellOffset (offset : Int64) : Int64 :=
  if offset = 0 then 0 else if offset > 0 then if o.boundsCheck then 0 else offset else 0

def addressCode (offset : Int64) : List Directive :=
  if offset = 0 then []
  else if offset > 0 then
    if o.boundsCheck then [.emit (.arith .add true Reg.address Reg.pointer offset)] else []
  else [.emit (.arith .sub true Reg.address Reg.pointer (-offset))]

/-- A bounds check when `n` labels have been made. -/
def checkCode (n : Nat) (reg : Reg) : List Directive :=
  [.emit (.subReg Reg.index reg Reg.base), .emit (.cmp Reg.index Reg.length)] ++
    if o.farBranches then
      [.label, .emit (.branchIf Cond.lo (label n)), .emit (.branch Generator.trapLabel),
        .bind (label n)]
    else [.emit (.branchIf Cond.hs Generator.trapLabel)]

def cellCode (n : Nat) (offset : Int64) : List Directive :=
  addressCode o offset ++ if o.boundsCheck then checkCode o n (cellReg o offset) else []

def moveCode (delta : Int64) : List Directive :=
  if delta > 0 then [.emit (.arith .add true Reg.pointer Reg.pointer delta)]
  else if delta < 0 then [.emit (.arith .sub true Reg.pointer Reg.pointer (-delta))]
  else []

/-- Adds to the cell at an address. -/
def sumCode (delta : Int64) (reg : Reg) (displacement : Int64) : List Directive :=
  if delta = 0 then []
  else
    [ .emit (.loadByte Reg.value reg displacement),
      .emit (if delta > 0 then .arith .add false Reg.value Reg.value delta
        else .arith .sub false Reg.value Reg.value (-delta)),
      .emit (.storeByte Reg.value reg displacement) ]

/-- Asks for a byte and stores it unless there is none; `skip` is the label made for that. -/
def askCode (offset : Int64) (skip : Label) : List Directive :=
  [ .emit (.mov 0 Reg.context), .emit (.call Reg.get), .label,
    .emit (.branchIfBit Reg.value 31 skip) ] ++ addressCode o offset ++
    [.emit (.storeByte Reg.value (cellReg o offset) (cellOffset o offset)), .bind skip]

def opCode (n : Nat) : Op → List Directive
  | .move delta => moveCode delta
  | .add delta offset =>
    cellCode o n offset ++ sumCode delta (cellReg o offset) (cellOffset o offset)
  | .clear offset =>
    cellCode o n offset ++
      [.emit (.storeByte Reg.zero (cellReg o offset) (cellOffset o offset))]
  | .put offset =>
    cellCode o n offset ++
      [ .emit (.loadByte 1 (cellReg o offset) (cellOffset o offset)),
        .emit (.mov 0 Reg.context), .emit (.call Reg.put) ]
  | .get offset =>
    cellCode o n offset ++ askCode o offset (label (n + labelsIn (cellCode o n offset)))
  | .unknown => []

/-- Goes to a label if the value is zero; `n` labels have been made. -/
def leaveCode (n : Nat) (stop : Label) : List Directive :=
  if o.farBranches then
    [ .label, .emit (.branchIfNotZero Reg.value (label n)), .emit (.branch stop),
      .bind (label n) ]
  else [.emit (.branchIfZero Reg.value stop)]

/-- The head of a loop when `n` labels have been made: its test, and the way to its end. -/
def headCode (n : Nat) : List Directive :=
  [.label, .label, .bind (label n)] ++ cellCode o (n + 2) 0 ++
    [.emit (.loadByte Reg.value Reg.pointer 0)] ++
    leaveCode o (n + 2 + labelsIn (cellCode o (n + 2) 0)) (label (n + 1))

def blockCode (n : Nat) : Block → List Directive
  | .nil => []
  | .step op rest => opCode o n op ++ blockCode (n + labelsIn (opCode o n op)) rest
  | .loop body rest =>
    let inside := n + labelsIn (headCode o n)
    headCode o n ++ blockCode inside body ++
      [.emit (.branch (label n)), .bind (label (n + 1))] ++
      blockCode (inside + labelsIn (blockCode inside body)) rest

/-- The number of bounds checks in the code of a block. -/
def checksIn : Block → Nat
  | .nil => 0
  | .step op rest => (if o.boundsCheck && op.offset?.isSome then 1 else 0) + checksIn rest
  | .loop body rest => (if o.boundsCheck then 1 else 0) + checksIn body + checksIn rest

/-- The trap's report, if anything can lead there. -/
def stubCode (b : Block) : List Directive :=
  if checksIn o b = 0 then [] else .bind Generator.trapLabel :: Generator.trapStub.map .emit

/-- All that is asked for a block. -/
def script (b : Block) : List Directive :=
  [.label, .label] ++ Generator.prologue.map .emit ++ blockCode o 2 b ++
    .bind Generator.exitLabel :: Generator.epilogue.map .emit ++ stubCode o b

end

theorem labelsIn_address (o : Options) (offset : Int64) :
    labelsIn (addressCode o offset) = 0 := by
  unfold addressCode
  split
  · rfl
  · split
    · split <;> rfl
    · rfl

end Layout

namespace Generator

open Layout

/-- A generator that has asked for more and counted more checks. -/
def grow (g : Generator) (ds : List Directive) (checks : Nat) : Generator :=
  ⟨g.asm.obeyAll ds, g.checks + checks⟩

/-- The number of labels made so far. -/
def made (g : Generator) : Nat := g.asm.labels.size

@[simp] theorem grow_nil (g : Generator) : g.grow [] 0 = g := rfl

@[simp] theorem grow_grow (g : Generator) (ds es : List Directive) (c d : Nat) :
    (g.grow ds c).grow es d = g.grow (ds ++ es) (c + d) := by
  simp only [grow, Assembler.obeyAll_append, Nat.add_assoc]

theorem labels_fail (a : Assembler) (f : A64.Fault) : (a.fail f).labels = a.labels := by
  unfold Assembler.fail
  split <;> rfl

theorem labels_emit (a : Assembler) (i : Instr Label) : (a.emit i).labels = a.labels := by
  unfold Assembler.emit
  cases i.refusal? with
  | some f => exact labels_fail a f
  | none =>
    cases i.target? with
    | none =>
      cases i.immediateFault? with
      | none => rfl
      | some f => exact labels_fail a f
    | some l =>
      dsimp only
      split
      · rfl
      · exact labels_fail a _

theorem size_labels_bind (a : Assembler) (l : Label) :
    (a.bind l).labels.size = a.labels.size := by
  unfold Assembler.bind
  split
  · split
    · rw [labels_fail]
    · simp
  · rw [labels_fail]

@[simp] theorem made_grow (g : Generator) (ds : List Directive) (c : Nat) :
    (g.grow ds c).made = g.made + labelsIn ds := by
  have h : ∀ a : Assembler, (a.obeyAll ds).labels.size = a.labels.size + labelsIn ds := by
    induction ds with
    | nil => exact fun _ => rfl
    | cons d ds ih =>
      intro a
      rw [Assembler.obeyAll_cons, ih]
      cases d with
      | emit i => rw [Assembler.obey, labels_emit, labelsIn]
      | bind l => rw [Assembler.obey, size_labels_bind, labelsIn]
      | label =>
        rw [Assembler.obey, Assembler.addLabel, Array.size_push, labelsIn]
        omega
  exact h g.asm

@[simp] theorem emit_eq (g : Generator) (is : List (Instr Label)) :
    g.emit is = g.grow (is.map .emit) 0 := by
  simp only [emit, grow, Assembler.emitAll_eq, Nat.add_zero]

@[simp] theorem newLabel_eq (g : Generator) :
    g.newLabel = (label g.made, g.grow [.label] 0) := rfl

@[simp] theorem bind_eq (g : Generator) (l : Label) : g.bind l = g.grow [.bind l] 0 := rfl

section
variable {o : Options}

theorem address_eq (offset : Int64) (g : Generator) :
    g.address o offset =
      (cellReg o offset, cellOffset o offset, g.grow (addressCode o offset) 0) := by
  unfold address cellReg cellOffset addressCode
  split
  · rfl
  · split
    · split
      · simp
      · rfl
    · simp

theorem check_eq (reg : Reg) (g : Generator) :
    g.check o reg = g.grow (checkCode o g.made reg) 1 := by
  have hcount : { g with checks := g.checks + 1 } = g.grow [] 1 := rfl
  unfold check checkCode
  rw [hcount]
  split <;> simp [labelsIn]

theorem cell_eq (offset : Int64) (g : Generator) :
    g.cell o offset = (cellReg o offset, cellOffset o offset,
      g.grow (cellCode o g.made offset) (if o.boundsCheck then 1 else 0)) := by
  unfold cell cellCode
  rw [address_eq]
  dsimp only
  cases o.boundsCheck with
  | false => simp
  | true => simp [check_eq, labelsIn_address]

theorem move_eq (delta : Int64) (g : Generator) : g.move delta = g.grow (moveCode delta) 0 := by
  unfold move moveCode
  split
  · simp
  · split <;> simp

theorem add_eq (delta offset : Int64) (g : Generator) :
    g.add o delta offset =
      g.grow (opCode o g.made (.add delta offset)) (if o.boundsCheck then 1 else 0) := by
  unfold add opCode sumCode
  rw [cell_eq]
  dsimp only
  split <;> simp

theorem clear_eq (offset : Int64) (g : Generator) :
    g.clear o offset =
      g.grow (opCode o g.made (.clear offset)) (if o.boundsCheck then 1 else 0) := by
  unfold clear opCode
  rw [cell_eq]
  simp

theorem put_eq (offset : Int64) (g : Generator) :
    g.put o offset =
      g.grow (opCode o g.made (.put offset)) (if o.boundsCheck then 1 else 0) := by
  unfold put opCode
  rw [cell_eq]
  simp

theorem get_eq (offset : Int64) (g : Generator) :
    g.get o offset =
      g.grow (opCode o g.made (.get offset)) (if o.boundsCheck then 1 else 0) := by
  unfold get opCode askCode
  rw [cell_eq]
  dsimp only
  simp [address_eq, labelsIn]

theorem step_eq {op : Op} {g g' : Generator} (h : g.step o op = .ok g') :
    op ≠ .unknown ∧
      g' = g.grow (opCode o g.made op) (if o.boundsCheck && op.offset?.isSome then 1 else 0) := by
  cases op with
  | unknown => cases h
  | move delta =>
    cases h
    exact ⟨nofun, by simp [move_eq, opCode, Op.offset?]⟩
  | add delta offset =>
    cases h
    exact ⟨nofun, by simp [add_eq, Op.offset?]⟩
  | clear offset =>
    cases h
    exact ⟨nofun, by simp [clear_eq, Op.offset?]⟩
  | put offset =>
    cases h
    exact ⟨nofun, by simp [put_eq, Op.offset?]⟩
  | get offset =>
    cases h
    exact ⟨nofun, by simp [get_eq, Op.offset?]⟩

theorem openLoop_eq (g : Generator) :
    g.openLoop o = (label g.made, label (g.made + 1),
      g.grow (headCode o g.made) (if o.boundsCheck then 1 else 0)) := by
  have hreg : cellReg o 0 = Reg.pointer := rfl
  have hoffset : cellOffset o 0 = 0 := rfl
  have hnext : g.made + (labelsIn (cellCode o (g.made + 2) 0) + 1 + 1) =
      g.made + 2 + labelsIn (cellCode o (g.made + 2) 0) := by omega
  unfold openLoop headCode leaveCode
  simp only [newLabel_eq, bind_eq, made_grow, grow_grow, cell_eq, hreg, hoffset]
  split <;> simp [labelsIn, hnext]

theorem closeLoop_eq (head stop : Label) (g : Generator) :
    g.closeLoop head stop = g.grow [.emit (.branch head), .bind stop] 0 := by
  simp [closeLoop]

/-- A block that gets through has no unknown step, and its code is as laid out. -/
theorem block_eq {b : Block} {g g' : Generator} (h : g.block o b = .ok g') :
    b.Known ∧ g' = g.grow (blockCode o g.made b) (checksIn o b) := by
  induction b generalizing g g' with
  | nil =>
    unfold block at h
    split at h
    · cases h
    · cases h
      exact ⟨trivial, rfl⟩
  | step op rest ih =>
    unfold block at h
    cases hstep : g.step o op with
    | error e =>
      rw [hstep] at h
      cases h
    | ok g₁ =>
      rw [hstep] at h
      obtain ⟨hop, rfl⟩ := step_eq hstep
      obtain ⟨hknown, rfl⟩ := ih h
      refine ⟨⟨hop, hknown⟩, ?_⟩
      simp only [grow_grow, made_grow, blockCode, checksIn]
  | loop body rest ihBody ihRest =>
    unfold block at h
    rw [openLoop_eq] at h
    dsimp only at h
    cases hbody : (g.grow (headCode o g.made) (if o.boundsCheck then 1 else 0)).block o body with
    | error e =>
      rw [hbody] at h
      cases h
    | ok g₁ =>
      rw [hbody] at h
      dsimp only at h
      obtain ⟨hknown, rfl⟩ := ihBody hbody
      rw [closeLoop_eq] at h
      obtain ⟨hknown', rfl⟩ := ihRest h
      refine ⟨⟨hknown, hknown'⟩, ?_⟩
      simp only [grow_grow, made_grow, blockCode, checksIn, labelsIn_append, labelsIn,
        List.append_assoc, Nat.add_zero, Nat.add_assoc]

theorem step_ok {op : Op} (h : op ≠ .unknown) (g : Generator) : ∃ g', g.step o op = .ok g' := by
  cases op with
  | unknown => exact absurd rfl h
  | move | add | clear | put | get => exact ⟨_, rfl⟩

/-- A block without unknown steps gets through if the assembler refuses nothing of its code. -/
theorem block_ok {b : Block} {g : Generator} (hb : b.Known)
    (h : (g.asm.obeyAll (blockCode o g.made b)).fault = none) : ∃ g', g.block o b = .ok g' := by
  induction b generalizing g with
  | nil =>
    unfold block
    rw [show g.asm.fault = none from h]
    exact ⟨g, rfl⟩
  | step op rest ih =>
    obtain ⟨g₁, hstep⟩ := step_ok (o := o) hb.1 g
    obtain ⟨-, rfl⟩ := step_eq hstep
    unfold block
    rw [hstep]
    apply ih hb.2
    rw [made_grow]
    simpa only [grow, blockCode, Assembler.obeyAll_append] using h
  | loop body rest ihBody ihRest =>
    unfold block
    rw [openLoop_eq]
    dsimp only
    simp only [blockCode, Assembler.obeyAll_append] at h
    have hbody := ihBody (g := g.grow (headCode o g.made) (if o.boundsCheck then 1 else 0)) hb.1
      (by
        rw [made_grow]
        exact Assembler.fault_obeyAll (Assembler.fault_obeyAll h))
    obtain ⟨g₁, hbody⟩ := hbody
    obtain ⟨-, rfl⟩ := block_eq hbody
    rw [hbody]
    dsimp only
    rw [closeLoop_eq]
    apply ihRest hb.2
    simp only [made_grow, labelsIn, Nat.add_zero]
    exact h

end

theorem start_eq : start = ({} : Generator).grow [.label, .label] 0 := rfl

theorem close_eq (g : Generator) :
    g.close = g.grow (.bind exitLabel :: epilogue.map .emit ++
      if g.checks = 0 then [] else .bind trapLabel :: trapStub.map .emit) 0 := by
  have hchecks : ((g.bind exitLabel).emit epilogue).checks = g.checks := rfl
  unfold close
  dsimp only
  rw [hchecks]
  split <;> simp

theorem made_start : (start.emit prologue).made = 2 := by
  rw [start_eq, emit_eq, grow_grow, made_grow, labelsIn_append, labelsIn_emits]
  rfl

/-- All that has been asked once the code of a block is closed. -/
theorem close_script (o : Options) (b : Block) :
    ((start.emit prologue).grow (blockCode o 2 b) (checksIn o b)).close =
      ⟨({} : Assembler).obeyAll (script o b), checksIn o b⟩ := by
  have hchecks : ((start.emit prologue).grow (blockCode o 2 b) (checksIn o b)).checks =
      checksIn o b := Nat.zero_add _
  rw [close_eq, hchecks, start_eq]
  simp only [emit_eq, grow_grow, script, stubCode, List.append_assoc]
  simp only [grow, List.cons_append, List.nil_append, Nat.zero_add, Nat.add_zero]

end Generator

/-- Every register number in the directives has five bits. -/
def Numbered : List Directive → Prop
  | [] => True
  | .emit i :: rest => i.Numbered ∧ Numbered rest
  | .label :: rest => Numbered rest
  | .bind _ :: rest => Numbered rest

theorem Numbered.of_mem {ds : List Directive} (h : Numbered ds) {i : Instr Label}
    (hi : .emit i ∈ ds) : i.Numbered := by
  induction ds with
  | nil => cases hi
  | cons d ds ih =>
    cases d with
    | emit j =>
      rcases List.mem_cons.mp hi with heq | hi
      · cases heq
        exact h.1
      · exact ih h.2 hi
    | label => exact ih h ((List.mem_cons.mp hi).resolve_left nofun)
    | bind l => exact ih h ((List.mem_cons.mp hi).resolve_left nofun)

@[simp] theorem numbered_append {ds es : List Directive} :
    Numbered (ds ++ es) ↔ Numbered ds ∧ Numbered es := by
  induction ds with
  | nil => simp [Numbered]
  | cons d ds ih => cases d <;> simp [Numbered, ih, and_assoc]

namespace Layout

section
variable (o : Options)

theorem cellReg_lt (offset : Int64) : cellReg o offset < 32 := by
  unfold cellReg
  split
  · decide
  · split
    · split <;> decide
    · decide

theorem numbered_address (offset : Int64) : Numbered (addressCode o offset) := by
  unfold addressCode
  split
  · trivial
  · split
    · split <;> simp +decide [Numbered, Instr.Numbered]
    · simp +decide [Numbered, Instr.Numbered]

theorem numbered_cell (n : Nat) (offset : Int64) : Numbered (cellCode o n offset) := by
  have hreg := cellReg_lt o offset
  unfold cellCode checkCode
  rw [numbered_append]
  refine ⟨numbered_address o offset, ?_⟩
  split
  · split <;> simp +decide [Numbered, Instr.Numbered, hreg]
  · trivial

theorem numbered_move (delta : Int64) : Numbered (moveCode delta) := by
  unfold moveCode
  split
  · simp +decide [Numbered, Instr.Numbered]
  · split <;> simp +decide [Numbered, Instr.Numbered]

theorem numbered_sum (delta : Int64) {reg : Reg} (hreg : reg < 32) (displacement : Int64) :
    Numbered (sumCode delta reg displacement) := by
  unfold sumCode
  split
  · trivial
  · split <;> simp +decide [Numbered, Instr.Numbered, hreg]

theorem numbered_op (n : Nat) (op : Op) : Numbered (opCode o n op) := by
  cases op with
  | move delta => exact numbered_move delta
  | add delta offset =>
    exact numbered_append.mpr
      ⟨numbered_cell o n offset, numbered_sum delta (cellReg_lt o offset) _⟩
  | clear offset =>
    refine numbered_append.mpr ⟨numbered_cell o n offset, ?_⟩
    simp +decide [Numbered, Instr.Numbered, cellReg_lt]
  | put offset =>
    refine numbered_append.mpr ⟨numbered_cell o n offset, ?_⟩
    simp +decide [Numbered, Instr.Numbered, cellReg_lt]
  | get offset =>
    refine numbered_append.mpr ⟨numbered_cell o n offset, ?_⟩
    simp +decide [askCode, Numbered, Instr.Numbered, cellReg_lt, numbered_address]
  | unknown => trivial

theorem numbered_head (n : Nat) : Numbered (headCode o n) := by
  unfold headCode leaveCode
  split <;> simp +decide [Numbered, Instr.Numbered, numbered_cell]

theorem numbered_block (n : Nat) (b : Block) : Numbered (blockCode o n b) := by
  induction b generalizing n with
  | nil => trivial
  | step op rest ih => exact numbered_append.mpr ⟨numbered_op o n op, ih _⟩
  | loop body rest ihBody ihRest =>
    simp only [blockCode, numbered_append]
    exact ⟨⟨⟨numbered_head o n, ihBody _⟩, trivial, trivial⟩, ihRest _⟩

theorem numbered_script (b : Block) : Numbered (script o b) := by
  have hpro : Numbered (Generator.prologue.map .emit) := by
    simp +decide [Generator.prologue, Numbered, Instr.Numbered]
  have hepi : Numbered (Generator.epilogue.map .emit) := by
    simp +decide [Generator.epilogue, Numbered, Instr.Numbered]
  have hstub : Numbered (stubCode o b) := by
    unfold stubCode
    split <;> simp +decide [Generator.trapStub, Numbered, Instr.Numbered]
  simp only [script, numbered_append]
  exact ⟨⟨⟨⟨trivial, hpro⟩, numbered_block o 2 b⟩, hepi⟩, hstub⟩

end

end Layout

/-- The generator hands the whole layout to the assembler, if that refuses nothing of it. -/
theorem generate_eq {b : Block} {o : Options} (hb : b.Known)
    (hfault : (({} : Assembler).obeyAll (Layout.script (o.adapt b) b)).fault = none) :
    generate b o =
      (⟨({} : Assembler).obeyAll (Layout.script (o.adapt b) b), Layout.checksIn (o.adapt b) b⟩ :
        Generator).toCode := by
  have hpart : ((Generator.start.emit Generator.prologue).asm.obeyAll
      (Layout.blockCode (o.adapt b) 2 b)).fault = none := by
    rw [Layout.script, Assembler.obeyAll_append, Assembler.obeyAll_append,
      Assembler.obeyAll_append] at hfault
    exact Assembler.fault_obeyAll (Assembler.fault_obeyAll hfault)
  rw [← Generator.made_start] at hpart
  obtain ⟨g, hg⟩ := Generator.block_ok hb hpart
  unfold generate
  rw [hg]
  obtain ⟨-, rfl⟩ := Generator.block_eq hg
  dsimp only
  rw [Generator.made_start, Generator.close_script]

/-- Code of a block is what the assembler finished of its layout. -/
theorem generate_finish {b : Block} {o : Options} {code : Code} (h : generate b o = .ok code) :
    b.Known ∧ ∃ done,
      (({} : Assembler).obeyAll (Layout.script (o.adapt b) b)).finish = (done, none) ∧
      code.bytes = done.bytes := by
  unfold generate at h
  cases hblock : (Generator.start.emit Generator.prologue).block (o.adapt b) b with
  | error e =>
    rw [hblock] at h
    cases h
  | ok g =>
    rw [hblock] at h
    obtain ⟨hknown, rfl⟩ := Generator.block_eq hblock
    dsimp only at h
    rw [Generator.made_start, Generator.close_script] at h
    dsimp only [Generator.toCode] at h
    split at h
    · cases h
    · rename_i done hdone
      cases h
      exact ⟨hknown, done, hdone, rfl⟩

open Layout in
/-- The code of a block that the generator accepts holds all that was asked for it. -/
theorem generate_holds {b : Block} {o : Options} {code : Code} (h : generate b o = .ok code) :
    b.Known ∧ ∃ place, Holds code.bytes place (script (o.adapt b) b) 0 := by
  obtain ⟨hknown, done, hdone, hbytes⟩ := generate_finish h
  rw [hbytes]
  exact ⟨hknown, _, Assembler.holds_finish hdone fun i hi => (numbered_script _ b).of_mem hi⟩

end TapeLang.Native
