import TapeLang.Compiled
import TapeLang.Proofs.Labels
import TapeLang.Proofs.Legality

namespace TapeLang

/-- The generator has code for the step. Without bounds checks an addition of nothing to a cell
ahead of the pointer takes no code at all, however far the cell is. -/
def Op.Accepted (boundsCheck : Bool) : Op → Prop
  | move delta => Carried delta
  | add delta offset =>
    Carried delta ∧ (Carried offset ∨ delta = 0 ∧ offset > 0 ∧ boundsCheck = false)
  | clear offset => Carried offset
  | put offset => Carried offset
  | get offset => Carried offset
  | unknown => False

def Block.Accepted (boundsCheck : Bool) : Block → Prop
  | nil => True
  | step op rest => op.Accepted boundsCheck ∧ rest.Accepted boundsCheck
  | loop body rest => body.Accepted boundsCheck ∧ rest.Accepted boundsCheck

theorem Op.Legal.accepted {op : Op} (h : op.Legal) (boundsCheck : Bool) :
    op.Accepted boundsCheck := by
  cases op with
  | add delta offset => exact ⟨h.1, .inl h.2⟩
  | move | clear | put | get | unknown => exact h

namespace Block

theorem Legal.accepted {b : Block} (h : b.Legal) (boundsCheck : Bool) :
    b.Accepted boundsCheck := by
  induction b with
  | nil => trivial
  | step op rest ih => exact ⟨h.1.accepted boundsCheck, ih h.2⟩
  | loop body rest ihBody ihRest => exact ⟨ihBody h.1, ihRest h.2⟩

theorem Accepted.known {boundsCheck : Bool} {b : Block} (h : b.Accepted boundsCheck) :
    b.Known := by
  induction b with
  | nil => trivial
  | step op rest ih =>
    refine ⟨?_, ih h.2⟩
    rintro rfl
    exact h.1
  | loop body rest ihBody ihRest => exact ⟨ihBody h.1, ihRest h.2⟩

end Block

end TapeLang

namespace TapeLang.Native

open A64

namespace Layout

section encodable
variable (o : Options)

theorem fitsImm12_iff {n : Int64} : fitsImm12 n = true ↔ 0 ≤ n.toInt ∧ n.toInt ≤ 4095 := by
  simp only [fitsImm12, Bool.and_eq_true, decide_eq_true_eq, Int64.le_iff_toInt_le,
    Int64.toInt_zero, show maxImm12.toInt = 4095 from rfl]

theorem fits_pos {n : Int64} (hpos : n > 0) : fitsImm12 n = true ↔ Carried n := by
  rw [gt_iff_lt, Int64.lt_iff_toInt_lt, Int64.toInt_zero] at hpos
  rw [fitsImm12_iff, Carried]
  omega

theorem fits_neg {n : Int64} (hneg : ¬ n > 0) : fitsImm12 (-n) = true ↔ Carried n := by
  rw [gt_iff_lt, Int64.lt_iff_toInt_lt, Int64.toInt_zero] at hneg
  have hlow := Int64.le_toInt n
  rw [fitsImm12_iff, Carried, Int64.toInt_neg]
  by_cases hmin : n.toInt = -2 ^ 63
  · rw [hmin]
    decide
  · rw [Int.bmod_eq_of_le (by omega) (by omega)]
    omega

/-- The assembler can encode every instruction. -/
def Encodes (ds : List Directive) : Prop := ∀ i ∈ emitted ds, i.Encodable

theorem encodes_append {ds es : List Directive} :
    Encodes (ds ++ es) ↔ Encodes ds ∧ Encodes es := by
  simp only [Encodes, emitted_append, List.mem_append, or_imp, forall_and]

@[simp] theorem encodes_nil : Encodes [] := nofun

@[simp] theorem encodes_emit {i : Instr Label} {ds : List Directive} :
    Encodes (.emit i :: ds) ↔ i.Encodable ∧ Encodes ds := by
  simp [Encodes, emitted]

@[simp] theorem encodes_label {ds : List Directive} : Encodes (.label :: ds) ↔ Encodes ds := .rfl

@[simp] theorem encodes_bind {l : Label} {ds : List Directive} :
    Encodes (.bind l :: ds) ↔ Encodes ds := .rfl

/-- An address is computed for every cell but those ahead of the pointer that need no check. -/
theorem encodes_address (offset : Int64) :
    Encodes (addressCode o offset) ↔ Carried offset ∨ offset > 0 ∧ o.boundsCheck = false := by
  unfold addressCode
  split
  · rename_i hzero
    subst hzero
    simp [Carried]
  · split
    · rename_i hpos
      split
      · rename_i hcheck
        simp [Instr.Encodable, fits_pos hpos, hcheck]
      · rename_i hcheck
        simp [hpos, hcheck]
    · rename_i hneg
      simp [Instr.Encodable, fits_neg hneg, hneg]

theorem encodes_cell (n : Nat) (offset : Int64) :
    Encodes (cellCode o n offset) ↔ Carried offset ∨ offset > 0 ∧ o.boundsCheck = false := by
  have hcheck : Encodes (if o.boundsCheck then checkCode o n (cellReg o offset) else []) := by
    unfold checkCode
    split
    · split <;> simp [Instr.Encodable]
    · exact encodes_nil
  rw [cellCode, encodes_append, encodes_address]
  exact and_iff_left hcheck

theorem fits_cellOffset (offset : Int64) :
    fitsImm12 (cellOffset o offset) = true ↔
      Carried offset ∨ ¬ (offset > 0 ∧ o.boundsCheck = false) := by
  have hnone : fitsImm12 0 = true := rfl
  unfold cellOffset
  split
  · rename_i hzero
    subst hzero
    simp [hnone]
  · split
    · rename_i hpos
      split
      · rename_i hcheck
        simp [hnone, hcheck]
      · rename_i hcheck
        simp [fits_pos hpos, hpos, hcheck]
    · rename_i hneg
      simp [hnone, hneg]

/-- A cell can be loaded from or stored to exactly when its offset fits. -/
theorem encodes_access (n : Nat) (offset : Int64) :
    Encodes (cellCode o n offset) ∧ fitsImm12 (cellOffset o offset) = true ↔ Carried offset := by
  rw [encodes_cell, fits_cellOffset, ← or_and_left, and_not_self_iff, or_false]

theorem encodes_move (delta : Int64) : Encodes (moveCode delta) ↔ Carried delta := by
  unfold moveCode
  split
  · rename_i hpos
    simp [Instr.Encodable, fits_pos hpos]
  · rename_i hpos
    split
    · simp [Instr.Encodable, fits_neg hpos]
    · rename_i hneg
      have hzero : delta.toInt = 0 := by
        simp only [gt_iff_lt, Int64.lt_iff_toInt_lt, Int64.toInt_zero] at hpos hneg
        omega
      simp [Carried, hzero]

theorem encodes_sum {delta : Int64} (hdelta : delta ≠ 0) (reg : Reg) (displacement : Int64) :
    Encodes (sumCode delta reg displacement) ↔
      fitsImm12 displacement = true ∧ Carried delta := by
  unfold sumCode
  rw [if_neg hdelta]
  have hmiddle : (if delta > 0 then Instr.arith .add false Reg.value Reg.value delta
      else .arith .sub false Reg.value Reg.value (-delta) : Instr Label).Encodable ↔
        Carried delta := by
    split
    · rename_i hpos
      exact fits_pos hpos
    · rename_i hneg
      exact fits_neg hneg
  rw [encodes_emit, encodes_emit, encodes_emit, hmiddle]
  exact ⟨fun h => ⟨h.1, h.2.1⟩, fun h => ⟨h.1, h.2, h.1, encodes_nil⟩⟩

theorem encodes_op {op : Op} (hop : op ≠ .unknown) (n : Nat) :
    Encodes (opCode o n op) ↔ op.Accepted o.boundsCheck := by
  cases op with
  | unknown => exact absurd rfl hop
  | move delta => exact encodes_move delta
  | add delta offset =>
    rw [opCode, encodes_append, Op.Accepted]
    by_cases hdelta : delta = 0
    · subst hdelta
      simp [sumCode, encodes_cell, Carried]
    · rw [encodes_sum hdelta, ← and_assoc, encodes_access]
      simp only [hdelta, false_and, or_false]
      exact and_comm
  | clear offset =>
    rw [opCode, encodes_append, Op.Accepted, ← encodes_access o n]
    simp [Instr.Encodable]
  | put offset =>
    rw [opCode, encodes_append, Op.Accepted, ← encodes_access o n]
    simp [Instr.Encodable]
  | get offset =>
    have hask : Encodes (askCode o offset (label (n + labelsIn (cellCode o n offset)))) ↔
        Encodes (addressCode o offset) ∧ fitsImm12 (cellOffset o offset) = true := by
      rw [askCode, encodes_append, encodes_append]
      simp [Instr.Encodable]
    rw [opCode, encodes_append, hask, encodes_address, ← encodes_cell o n, ← and_assoc,
      and_self_iff, encodes_access, Op.Accepted]

theorem encodes_head (n : Nat) : Encodes (headCode o n) := by
  have hload : fitsImm12 0 = true := rfl
  have hleave (m : Nat) (stop : Label) : Encodes (leaveCode o m stop) := by
    unfold leaveCode
    split <;> simp [Instr.Encodable]
  unfold headCode
  rw [encodes_append, encodes_append, encodes_append]
  refine ⟨⟨⟨encodes_nil, (encodes_cell o _ 0).mpr (.inl (Nat.zero_le _))⟩, ?_⟩, hleave _ _⟩
  simp [Instr.Encodable, hload]

theorem encodes_block {b : Block} (hb : b.Known) (n : Nat) :
    Encodes (blockCode o n b) ↔ b.Accepted o.boundsCheck := by
  induction b generalizing n with
  | nil => exact ⟨fun _ => trivial, fun _ => encodes_nil⟩
  | step op rest ih =>
    rw [blockCode, encodes_append, encodes_op o hb.1, ih hb.2, Block.Accepted]
  | loop body rest ihBody ihRest =>
    have hback (m : Nat) : Encodes [.emit (.branch (label m)), .bind (label (m + 1))] := by
      simp [Instr.Encodable]
    simp only [blockCode, encodes_append, ihBody hb.1, ihRest hb.2, Block.Accepted]
    exact ⟨fun h => ⟨h.1.1.2, h.2⟩, fun h => ⟨⟨⟨encodes_head o n, h.1⟩, hback n⟩, h.2⟩⟩

/-- The layout of a block can be encoded exactly when the block's own numbers fit. -/
theorem encodes_script {b : Block} (hb : b.Known) :
    Encodes (script o b) ↔ b.Accepted o.boundsCheck := by
  have hpro : Encodes (Generator.prologue.map .emit) := by
    simp +decide [Generator.prologue, Instr.Encodable]
  have hepi : Encodes (.bind Generator.exitLabel :: Generator.epilogue.map .emit) := by
    simp +decide [Generator.epilogue, Instr.Encodable]
  have hstub : Encodes (stubCode o b) := by
    unfold stubCode
    split
    · exact encodes_nil
    · simp [Generator.trapStub, Instr.Encodable]
  simp only [script, encodes_append, encodes_block o hb]
  exact ⟨fun h => h.1.1.2, fun h => ⟨⟨⟨⟨encodes_nil, hpro⟩, h⟩, hepi⟩, hstub⟩⟩

end encodable

section size
variable (o : Options)

theorem size_cell (n : Nat) (offset : Int64) :
    span (cellCode o n offset) ≤ 5 ∧ labelsIn (cellCode o n offset) ≤ 1 := by
  have hspan := span_address o offset
  unfold cellCode checkCode
  rw [span_append, labelsIn_append, labelsIn_address]
  split
  · split <;> simp [span, labelsIn] <;> omega
  · simp [span, labelsIn]
    omega

theorem size_move (delta : Int64) :
    span (moveCode delta) ≤ 1 ∧ labelsIn (moveCode delta) = 0 := by
  unfold moveCode
  split
  · exact ⟨Nat.le_refl 1, rfl⟩
  · split
    · exact ⟨Nat.le_refl 1, rfl⟩
    · exact ⟨Nat.zero_le 1, rfl⟩

theorem size_sum (delta : Int64) (reg : Reg) (displacement : Int64) :
    span (sumCode delta reg displacement) ≤ 3 ∧
      labelsIn (sumCode delta reg displacement) = 0 := by
  unfold sumCode
  split
  · exact ⟨Nat.zero_le 3, rfl⟩
  · exact ⟨Nat.le_refl 3, rfl⟩

/-- No step takes more than twelve instructions and four labels. -/
theorem size_op (n : Nat) (op : Op) :
    span (opCode o n op) ≤ 12 ∧ labelsIn (opCode o n op) ≤ 4 := by
  cases op with
  | unknown => exact ⟨Nat.zero_le _, Nat.zero_le _⟩
  | move delta =>
    have hmove := size_move delta
    simp only [opCode]
    omega
  | add delta offset =>
    have hcell := size_cell o n offset
    have hsum := size_sum delta (cellReg o offset) (cellOffset o offset)
    simp only [opCode, span_append, labelsIn_append]
    omega
  | clear offset =>
    have hcell := size_cell o n offset
    simp only [opCode, span_append, labelsIn_append, span, labelsIn]
    omega
  | put offset =>
    have hcell := size_cell o n offset
    simp only [opCode, span_append, labelsIn_append, span, labelsIn]
    omega
  | get offset =>
    have hcell := size_cell o n offset
    have haddress := span_address o offset
    simp only [opCode, askCode, span_append, labelsIn_append, labelsIn_address, span, labelsIn]
    omega

theorem size_head (n : Nat) : span (headCode o n) ≤ 8 ∧ labelsIn (headCode o n) ≤ 4 := by
  have hcell := size_cell o (n + 2) 0
  unfold headCode leaveCode
  split <;> simp only [span_append, labelsIn_append, span, labelsIn] <;> omega

theorem size_block (n : Nat) (b : Block) :
    span (blockCode o n b) ≤ 12 * b.count ∧ labelsIn (blockCode o n b) ≤ 4 * b.count := by
  induction b generalizing n with
  | nil => exact ⟨Nat.zero_le _, Nat.zero_le _⟩
  | step op rest ih =>
    have hop := size_op o n op
    have hrest := ih (n + labelsIn (opCode o n op))
    simp only [blockCode, span_append, labelsIn_append, Block.count]
    omega
  | loop body rest ihBody ihRest =>
    have hhead := size_head o n
    have hbody := ihBody (n + labelsIn (headCode o n))
    have hrest := ihRest (n + labelsIn (headCode o n) +
      labelsIn (blockCode o (n + labelsIn (headCode o n)) body))
    simp only [blockCode, span_append, labelsIn_append, span, labelsIn, Block.count]
    omega

theorem span_script (b : Block) : span (script o b) ≤ 12 * b.count + 24 := by
  have hblock := size_block o 2 b
  have hpro : span (Generator.prologue.map .emit) = 13 := rfl
  have hepi : span (Generator.epilogue.map .emit) = 7 := rfl
  have hstub : span (stubCode o b) ≤ 4 := by
    unfold stubCode
    split
    · exact Nat.zero_le 4
    · exact Nat.le_refl 4
  simp only [script, span_append, span, hpro, hepi]
  omega

end size

section reach
variable {o : Options} {b : Block}

theorem labelsIn_script_le (hcount : 4 * b.count + 2 ≤ 2 ^ 63) :
    labelsIn (script o b) ≤ 2 ^ 63 := by
  have hblock := size_block o 2 b
  rw [labelsIn_script]
  omega

/-- The assembler refuses nothing of the layout of an accepted block. -/
theorem fault_script (haccepted : b.Accepted o.boundsCheck) (hcount : 4 * b.count + 2 ≤ 2 ^ 63) :
    (({} : Assembler).obeyAll (script o b)).fault = none := by
  have hlabels : labelsIn (script o b) ≤ 2 ^ 63 := labelsIn_script_le hcount
  refine Assembler.fault_obeyAll_none rfl (declared_script o b) ?_
    ((encodes_script o haccepted.known).mpr haccepted) (nodup_script o hlabels) ?_
  · exact (Nat.zero_add _).symm ▸ hlabels
  · intro l hl
    unfold Assembler.position?
    split <;> rfl

theorem reach_ge (i : Instr Label) : 2 ^ 13 ≤ i.field.reach := by
  unfold Instr.field
  split <;> decide

/-- Every branch of the layout leads to a label that is bound, and unless it is unconditional it
reaches it. -/
theorem reaches_script (hlabels : labelsIn (script o b) ≤ 2 ^ 63)
    (hnear : o.farBranches = false → span (script o b) < 2 ^ 18) {k : Nat} {i : Instr Label}
    {l : Label} (hk : (emitted (script o b))[k]? = some i) (hl : i.target? = some l) :
    ∃ p : Nat, boundAt? l (script o b) = some p ∧ (i = .branch l ∨ i.field.Reaches (p - k)) := by
  obtain ⟨p, hp⟩ := mem_binds.mp (closed_script o b l (mem_targets hk hl))
  refine ⟨p, hp, ?_⟩
  let place (l : Label) : Int := ((boundAt? l (script o b)).getD 0 : Nat)
  have hplace : place l = p := by simp only [place, hp, Option.getD_some]
  have hplaced : Placed place (script o b) 0 := by
    refine placed_of_boundAt (nodup_script o hlabels) fun l p hp => ?_
    simp only [place, hp, Option.getD_some, Nat.zero_add]
  have hclose := (short_script o hplaced).instr hk l hl
  rw [Nat.zero_add, hplace] at hclose
  rcases hclose with hbranch | ⟨hfar, hfield⟩ | hshort
  · exact .inl hbranch
  · have hsize := hnear hfar
    have hwithin := within_span hk hp
    rw [hfield, Field.Reaches, show Field.reach ⟨19, 5⟩ = 2 ^ 18 from rfl]
    exact .inr ⟨by omega, by omega⟩
  · have hreach := reach_ge i
    exact .inr ⟨by omega, by omega⟩

end reach

end Layout

end TapeLang.Native

namespace TapeLang.A64.Assembler

/-- Why a displacement cannot be filled in. -/
theorem displacement_error {a : Assembler} {f : Fixup} {e : Fault} {p : Nat}
    (h : a.displacement f = .error e) (hp : a.position? f.label = some p) :
    ¬ f.field.Reaches (p - f.index) ∧ e = .outOfReach f.index f.label (p - f.index) := by
  unfold displacement at h
  simp only [hp] at h
  split at h
  · rename_i hout
    cases h
    exact ⟨fun ⟨hlow, hhigh⟩ => by omega, rfl⟩
  · cases h

theorem patchAll_error {a b : Assembler} {fs : List Fixup} {e : Fault}
    (h : a.patchAll fs = (b, some e)) : ∃ f ∈ fs, a.displacement f = .error e := by
  induction fs generalizing a with
  | nil => cases h
  | cons f fs ih =>
    unfold patchAll at h
    cases hd : a.displacement f with
    | error e' =>
      rw [hd] at h
      cases h
      exact ⟨f, List.mem_cons_self, hd⟩
    | ok d =>
      rw [hd] at h
      obtain ⟨g, hg, he⟩ := ih h
      exact ⟨g, List.mem_cons_of_mem f hg, he⟩

theorem patchAll_second {a : Assembler} {f g : Fixup} {d : Int} {e : Fault}
    (hf : a.displacement f = .ok d) (hg : a.displacement g = .error e) (rest : List Fixup) :
    ∃ done, a.patchAll (f :: g :: rest) = (done, some e) := by
  have hkept : (a.patch f d).displacement g = .error e := hg
  simp only [patchAll, hf, hkept]
  exact ⟨_, rfl⟩

/-- Where every branch leads to a bound label, the one fault that finishing can find is a branch too
far from its label. -/
theorem finish_error {ds : List Directive} {done : Assembler} {e : Fault}
    (hfault : (({} : Assembler).obeyAll ds).fault = none)
    (hbound : ∀ l ∈ targets ds, l ∈ binds ds)
    (h : (({} : Assembler).obeyAll ds).finish = (done, some e)) :
    ∃ (k p : Nat) (i : Instr Label) (l : Label), (emitted ds)[k]? = some i ∧
      i.target? = some l ∧ boundAt? l ds = some p ∧ ¬ i.field.Reaches (p - k) ∧
      e = .outOfReach k l (p - k) := by
  unfold finish at h
  rw [hfault] at h
  obtain ⟨f, hf, he⟩ := patchAll_error h
  rw [fixups_obeyAll hfault, List.mem_append] at hf
  obtain ⟨k, i, l, hk, ht, rfl⟩ := mem_fixupsFrom.mp (hf.resolve_left nofun)
  obtain ⟨p, hp⟩ := mem_binds.mp (hbound l (mem_targets hk ht))
  obtain ⟨hout, rfl⟩ := displacement_error he ((position_boundAt l hfault).trans hp)
  refine ⟨k, p, i, l, hk, ht, hp, ?_, ?_⟩
  · simpa using hout
  · simp

end TapeLang.A64.Assembler

namespace TapeLang.Native

open A64

/-- Every unconditional branch is within reach of the place where its label is bound. -/
def WithinReach (ds : List Directive) : Prop :=
  ∀ (k p : Nat) (l : Label), (emitted ds)[k]? = some (.branch l) → boundAt? l ds = some p →
    -2 ^ 25 ≤ (p : Int) - k ∧ (p : Int) - k < 2 ^ 25

section
variable {b : Block} {o : Options}

/-- Near branches are used only in code that is small as a whole. -/
theorem span_near (h : (o.adapt b).farBranches = false) :
    span (Layout.script (o.adapt b) b) < 2 ^ 18 := by
  have hspan := Layout.span_script (o.adapt b) b
  simp only [Options.adapt, Bool.or_eq_false_iff, decide_eq_false_iff_not, ge_iff_le,
    Nat.not_le, maxNodeWords, show nearWords = 2 ^ 18 from rfl] at h
  omega

/-- Code of an accepted block exists exactly when its unconditional branches are within reach. -/
theorem generate_ok_iff (haccepted : b.Accepted o.boundsCheck) (hcount : 4 * b.count + 2 ≤ 2 ^ 63) :
    (∃ code, generate b o = .ok code) ↔ WithinReach (Layout.script (o.adapt b) b) := by
  have hfault := Layout.fault_script (o := o.adapt b) haccepted hcount
  rw [generate_eq haccepted.known hfault, Generator.toCode]
  constructor
  · rintro ⟨code, hcode⟩ k p l hk hp
    dsimp only at hcode
    split at hcode
    · cases hcode
    · rename_i done hdone
      obtain ⟨q, hq, hreach⟩ := (Assembler.leads_of_finish hdone).2 k _ hk l rfl
      rw [hp] at hq
      cases hq
      exact hreach
  · intro hwithin
    have hleads (k : Nat) (i : Instr Label)
        (hk : (emitted (Layout.script (o.adapt b) b))[k]? = some i) :
        Leads (Layout.script (o.adapt b) b) k i := by
      intro l hl
      obtain ⟨p, hp, hreach⟩ :=
        Layout.reaches_script (Layout.labelsIn_script_le hcount) span_near hk hl
      refine ⟨p, hp, ?_⟩
      rcases hreach with rfl | hreach
      · exact hwithin k p l hk hp
      · exact hreach
    obtain ⟨done, hdone⟩ := Assembler.finish_ok hfault hleads
    rw [hdone]
    exact ⟨_, rfl⟩

/-- Code that is small as a whole exists. -/
theorem withinReach_of_count (hcount : 12 * b.count + 64 ≤ 2 ^ 25) :
    WithinReach (Layout.script o b) := by
  intro k p l hk hp
  have hspan := Layout.span_script o b
  have hwithin := within_span hk hp
  omega

/-- Code of an accepted block fails to exist only for an unconditional branch out of reach. -/
theorem generate_error (haccepted : b.Accepted o.boundsCheck) (hcount : 4 * b.count + 2 ≤ 2 ^ 63)
    {e : Defect} (h : generate b o = .error e) :
    ∃ (k p : Nat) (l : Label),
      (emitted (Layout.script (o.adapt b) b))[k]? = some (.branch l) ∧
      boundAt? l (Layout.script (o.adapt b) b) = some p ∧
      ¬ (-2 ^ 25 ≤ (p : Int) - k ∧ (p : Int) - k < 2 ^ 25) ∧
      e = (Fault.outOfReach k l (p - k)).toDefect := by
  have hfault := Layout.fault_script (o := o.adapt b) haccepted hcount
  rw [generate_eq haccepted.known hfault, Generator.toCode] at h
  dsimp only at h
  split at h
  · rename_i done f hdone
    cases h
    obtain ⟨k, p, i, l, hk, ht, hp, hout, rfl⟩ :=
      Assembler.finish_error hfault (Layout.closed_script _ b) hdone
    obtain ⟨q, hq, hreach⟩ :=
      Layout.reaches_script (Layout.labelsIn_script_le hcount) span_near hk ht
    rw [hp] at hq
    cases hq
    obtain rfl := hreach.resolve_right hout
    exact ⟨k, p, l, hk, hp, hout, rfl⟩
  · cases h

end

end TapeLang.Native

namespace TapeLang

/-- So many reads and nothing else. -/
def Block.reads : Nat → Block
  | 0 => nil
  | n + 1 => step (.get 0) (reads n)

namespace Block

theorem count_reads (n : Nat) : (reads n).count = n := by
  induction n with
  | zero => rfl
  | succ n ih => rw [reads, count, ih]

/-- A pass that keeps a read keeps any number of them. -/
theorem reads_kept {f : Block → Block} (hnil : f nil = nil)
    (hstep : ∀ rest, f (step (.get 0) rest) = step (.get 0) (f rest)) (n : Nat) :
    f (reads n) = reads n := by
  induction n with
  | zero => exact hnil
  | succ n ih => rw [reads, hstep, ih]

theorem optimize_reads (passes : PassSet) (n : Nat) : (reads n).optimize passes = reads n := by
  have hkept (on : Bool) {f : Block → Block} (hf : f (reads n) = reads n) :
      applyIf on f (reads n) = reads n := applyIf_rule (P := (· = reads n)) on rfl hf
  unfold optimize
  rw [hkept _ (reads_kept (f := coalesce) rfl (fun _ => rfl) n),
    hkept _ (reads_kept (f := zeroIdiom) rfl (fun _ => rfl) n),
    hkept _ (reads_kept (f := foldOffsets 0) rfl (fun _ => rfl) n)]
  exact reads_kept (f := legalize) rfl (fun _ => rfl) n

end Block

theorem Linked.reads {is : Array Instruction} {i stop : Nat} {b : Block}
    (h : Linked is i stop b) (hall : ∀ x ∈ is, x.kind = .input) : b = Block.reads (stop - i) := by
  induction h with
  | nil i => rw [Nat.sub_self]; rfl
  | @step i stop instruction op rest found acts next ih =>
    have hle := next.le
    rw [hall instruction (Array.mem_of_getElem? found)] at acts
    cases acts
    rw [show stop - i = stop - (i + 1) + 1 by omega, ih, Block.reads]
  | loop opens closes inside next ihInside ihNext =>
    cases hall _ (Array.mem_of_getElem? opens)

namespace Program

theorem Scan.readAll_reads (n : Nat) (s : Scan) (offset : Nat) (hpending : s.pending = [])
    (hall : ∀ x ∈ s.done, x.kind = .input) :
    ∃ s', s.readAll offset (List.replicate n 0x2C) = .ok s' ∧ s'.pending = [] ∧
      s'.done.size = s.done.size + n ∧ ∀ x ∈ s'.done, x.kind = .input := by
  induction n generalizing s offset with
  | zero => exact ⟨s, rfl, hpending, rfl, hall⟩
  | succ n ih =>
    let s₁ : Scan := { s with done := s.done.push ⟨.input, offset, none⟩ }
    have hone : s.read offset 0x2C = .ok s₁ := rfl
    have hall₁ : ∀ x ∈ s₁.done, x.kind = .input := by
      intro x hx
      rcases Array.mem_push.mp hx with hx | rfl
      · exact hall x hx
      · rfl
    obtain ⟨s', hread, hpending', hsize, hall'⟩ := ih s₁ (offset + 1) hpending hall₁
    refine ⟨s', ?_, hpending', ?_, hall'⟩
    · rw [List.replicate_succ, readAll, hone]
      exact hread
    · rw [hsize, Array.size_push]
      omega

theorem parse_reads (file : Text) (n : Nat) :
    ∃ p, parse ⟨file, List.replicate n 0x2C⟩ = .ok p ∧ p.block = Block.reads n := by
  obtain ⟨s, hread, hpending, hsize, hall⟩ := Scan.readAll_reads n {} 0 rfl nofun
  have hparse : parse ⟨file, List.replicate n 0x2C⟩ =
      .ok ⟨⟨file, List.replicate n 0x2C⟩, s.done⟩ := by
    unfold parse scan
    rw [hread]
    dsimp only [Scan.finish]
    rw [hpending]
  have hblock := (linked_of_parse hparse).reads hall
  refine ⟨_, hparse, hblock.trans ?_⟩
  simp [hsize]

end Program

namespace Native

open A64 Layout

/-- Options for code with bounds checks that may get long. -/
def farChecked : Options := { boundsCheck := true, farBranches := true }

theorem span_reads (n m : Nat) : span (blockCode farChecked n (Block.reads m)) = 8 * m := by
  induction m generalizing n with
  | zero => rfl
  | succ m ih =>
    rw [Block.reads, blockCode, span_append, ih]
    change 8 + 8 * m = 8 * (m + 1)
    omega

theorem checksIn_reads (m : Nat) : checksIn farChecked (Block.reads m) = m := by
  induction m with
  | zero => rfl
  | succ m ih =>
    rw [Block.reads, checksIn, ih]
    change 1 + m = m + 1
    omega

theorem legal_reads (m : Nat) : (Block.reads m).Legal := by
  induction m with
  | zero => trivial
  | succ m ih => exact ⟨Nat.zero_le _, ih⟩

/-- The trap's report stands behind the code of the block and the way out. -/
theorem trap_place {o : Options} {b : Block} (hchecks : checksIn o b ≠ 0)
    (hlabels : labelsIn (script o b) ≤ 2 ^ 63) :
    boundAt? Generator.trapLabel (script o b) = some (span (blockCode o 2 b) + 20) := by
  have hstub : stubCode o b = .bind Generator.trapLabel :: Generator.trapStub.map .emit := by
    rw [stubCode, if_neg hchecks]
  have hnodup := nodup_script o hlabels
  unfold script at hnodup ⊢
  rw [hstub] at hnodup ⊢
  generalize hbefore : [.label, .label] ++ Generator.prologue.map .emit ++ blockCode o 2 b ++
    .bind Generator.exitLabel :: Generator.epilogue.map .emit = before at hnodup ⊢
  have hspan : span before = span (blockCode o 2 b) + 20 := by
    have hpro : span (Generator.prologue.map .emit) = 13 := rfl
    have hepi : span (Generator.epilogue.map .emit) = 7 := rfl
    simp only [← hbefore, span_append, span, hpro, hepi]
    omega
  have hfresh : boundAt? Generator.trapLabel before = none := by
    cases hp : boundAt? Generator.trapLabel before with
    | none => rfl
    | some p =>
      rw [binds_append, List.nodup_append] at hnodup
      exact absurd rfl (hnodup.2.2 _ (mem_binds.mpr ⟨p, hp⟩) _ List.mem_cons_self)
  rw [boundAt_append, hfresh, Option.none_or, hspan]
  simp [boundAt?]

/-- The first two branches are those of the first bounds check: one over the other, which leads to
the trap. -/
theorem fixups_reads {m : Nat} (hm : m ≠ 0) :
    boundAt? (label 2) (script farChecked (Block.reads m)) = some 17 ∧
      ∃ rest, fixupsFrom 0 (emitted (script farChecked (Block.reads m))) =
        ⟨15, label 2, ⟨19, 5⟩⟩ :: ⟨16, Generator.trapLabel, ⟨26, 0⟩⟩ :: rest := by
  cases m with
  | zero => exact absurd rfl hm
  | succ m => exact ⟨rfl, _, rfl⟩

/-- Enough reads put the trap out of reach of the first bounds check. -/
theorem generate_reads {m : Nat} (hm : 2 ^ 22 ≤ m) (hlen : 4 * m + 2 ≤ 2 ^ 63) :
    generate (Block.reads m) { boundsCheck := true } =
      .error (Fault.outOfReach 16 Generator.trapLabel (8 * m + 4)).toDefect := by
  have hcount := Block.count_reads m
  have hadapt : Options.adapt { boundsCheck := true } (Block.reads m) = farChecked := by
    simp only [Options.adapt, farChecked, hcount, Bool.false_or, Options.mk.injEq, true_and,
      decide_eq_true_eq, ge_iff_le, maxNodeWords, show nearWords = 2 ^ 18 from rfl]
    omega
  have hfault : (({} : Assembler).obeyAll (script farChecked (Block.reads m))).fault = none :=
    fault_script ((legal_reads m).accepted true) (hcount.symm ▸ hlen)
  have htrap : boundAt? Generator.trapLabel (script farChecked (Block.reads m)) =
      some (8 * m + 20) := by
    have hchecks := checksIn_reads m
    rw [trap_place (by omega) (labelsIn_script_le (hcount.symm ▸ hlen)), span_reads]
  obtain ⟨hover, rest, hrest⟩ := fixups_reads (m := m) (by omega)
  have hfixups := (Assembler.fixups_obeyAll hfault).trans hrest
  rw [← Assembler.position_boundAt _ hfault] at htrap hover
  rw [generate_eq (legal_reads m).known (hadapt.symm ▸ hfault), hadapt]
  generalize ({} : Assembler).obeyAll (script farChecked (Block.reads m)) = a at *
  have hfirst : a.displacement ⟨15, label 2, ⟨19, 5⟩⟩ = .ok ((17 : Nat) - (15 : Nat)) :=
    Assembler.displacement_eq (f := ⟨15, label 2, ⟨19, 5⟩⟩) hover ⟨by decide, by decide⟩
  have hsecond : a.displacement ⟨16, Generator.trapLabel, ⟨26, 0⟩⟩ =
      .error (.outOfReach 16 Generator.trapLabel (8 * m + 4)) := by
    unfold Assembler.displacement
    simp only [htrap]
    rw [if_pos (.inr (by rw [show Field.reach ⟨26, 0⟩ = 2 ^ 25 from rfl]; omega))]
    congr 2
    omega
  obtain ⟨done, hdone⟩ := Assembler.patchAll_second hfirst hsecond rest
  unfold Generator.toCode Assembler.finish
  rw [hfault, hfixups]
  dsimp only
  rw [hdone]

end Native

end TapeLang

namespace TapeLang.Compiled

open A64 Native

/-- All that is asked of the assembler for the machine code of a program. -/
def directives (c : Compiled) (boundsCheck : Bool) : List Directive :=
  Layout.script (Native.Options.adapt { boundsCheck } c.optimized) c.optimized

theorem machineCode_reads {m : Nat} (hm : 2 ^ 22 ≤ m) (hlen : 4 * m + 2 ≤ 2 ^ 63) (o : Options) :
    ∃ c, (compile (List.replicate m 0x2C) o).1 = .ok c ∧
      c.machineCode true =
        .error (Fault.outOfReach 16 Generator.trapLabel (8 * m + 4)).toDefect := by
  obtain ⟨p, hp, hblock⟩ := Program.parse_reads o.file m
  refine ⟨ofProgram p o.passes, ?_, ?_⟩
  · unfold compile
    rw [hp]
  · unfold machineCode ofProgram
    dsimp only
    rw [hblock, Block.optimize_reads, generate_reads hm hlen]

/-- For every source that parses, whatever the passes and with or without bounds checks: machine
code exists exactly when every unconditional branch is within its reach of 2^25 words, so always for
sources of up to 2796197 bytes; and where there is no code, the defect is such a branch out of
reach. -/
theorem machineCode_ok_iff (source : Text) (o : Options) (c : Compiled) (boundsCheck : Bool)
    (hlen : 12 * source.length + 64 < 2 ^ 63) (hc : (compile source o).1 = .ok c) :
    ((∃ code, c.machineCode boundsCheck = .ok code) ↔ WithinReach (c.directives boundsCheck)) ∧
    (12 * source.length + 64 ≤ 2 ^ 25 → ∃ code, c.machineCode boundsCheck = .ok code) ∧
    ∀ e, c.machineCode boundsCheck = .error e →
      ∃ (k p : Nat) (l : Label),
        (emitted (c.directives boundsCheck))[k]? = some (.branch l) ∧
        boundAt? l (c.directives boundsCheck) = some p ∧
        ¬ (-2 ^ 25 ≤ (p : Int) - k ∧ (p : Int) - k < 2 ^ 25) ∧
        e = (Fault.outOfReach k l (p - k)).toDefect := by
  have hfits : c.optimized.Legal ∧ c.optimized.count ≤ source.length := by
    unfold compile at hc
    split at hc
    · cases hc
    · rename_i p hp
      cases hc
      exact Program.optimize_parse_fits hp (by dsimp only; omega) o.passes
  obtain ⟨hlegal, hcount⟩ := hfits
  have haccepted := hlegal.accepted boundsCheck
  have hok := generate_ok_iff (o := { boundsCheck }) haccepted (by omega)
  refine ⟨hok, fun hsmall => ?_, fun e he => generate_error haccepted (by omega) he⟩
  exact hok.mpr (withinReach_of_count (by omega))

/-- Writes back the bytes that it reads, up to the first zero. -/
def echo : Text := [0x2C, 0x5B, 0x2E, 0x2C, 0x5D]

theorem machineCode_ok_iff_echo :
    ∃ c code, (compile echo {}).1 = .ok c ∧ 12 * echo.length + 64 < 2 ^ 63 ∧
      c.machineCode true = .ok code ∧ WithinReach (c.directives true) := by
  obtain ⟨c, hc⟩ : ∃ c, (compile echo {}).1 = .ok c := ⟨_, rfl⟩
  obtain ⟨hiff, hsmall, -⟩ := machineCode_ok_iff echo {} c true (by decide) hc
  obtain ⟨code, hcode⟩ := hsmall (by decide)
  exact ⟨c, code, hc, by decide, hcode, hiff.mp ⟨code, hcode⟩⟩

/-- Four million reads with bounds checks: the first check cannot reach the trap. -/
theorem machineCode_reads_out_of_reach :
    ∃ c, (compile (List.replicate 4194304 0x2C) { passes := .none }).1 = .ok c ∧
      c.machineCode true =
        .error (Fault.outOfReach 16 Generator.trapLabel 33554436).toDefect := by
  have hdisplacement : (8 * (4194304 : Nat) + 4 : Int) = 33554436 := by decide
  obtain ⟨c, hc, he⟩ := machineCode_reads (m := 4194304) (by decide) (by decide) { passes := .none }
  rw [hdisplacement] at he
  exact ⟨c, hc, he⟩

end TapeLang.Compiled
