import TapeLang.Proofs.Layout
import TapeLang.Proofs.RoundTrip

namespace TapeLang.A64

/-- The labels bound, in order. -/
def binds : List Directive → List Label
  | [] => []
  | .emit _ :: rest => binds rest
  | .label :: rest => binds rest
  | .bind l :: rest => l :: binds rest

@[simp] theorem binds_append (ds es : List Directive) :
    binds (ds ++ es) = binds ds ++ binds es := by
  induction ds with
  | nil => rfl
  | cons d ds ih => cases d <;> simp [binds, ih]

theorem binds_emits (is : List (Instr Label)) : binds (is.map .emit) = [] := by
  induction is with
  | nil => rfl
  | cons i is ih => exact ih

@[simp] theorem emitted_append (ds es : List Directive) :
    emitted (ds ++ es) = emitted ds ++ emitted es := by
  induction ds with
  | nil => rfl
  | cons d ds ih => cases d <;> simp [emitted, ih]

@[simp] theorem emitted_emits (is : List (Instr Label)) : emitted (is.map .emit) = is := by
  induction is with
  | nil => rfl
  | cons i is ih => simp [emitted, ih]

/-- The labels that branches lead to. -/
def targets (ds : List Directive) : List Label := (emitted ds).filterMap Instr.target?

@[simp] theorem targets_append (ds es : List Directive) :
    targets (ds ++ es) = targets ds ++ targets es := by
  simp only [targets, emitted_append, List.filterMap_append]

theorem mem_targets {ds : List Directive} {k : Nat} {i : Instr Label} {l : Label}
    (hk : (emitted ds)[k]? = some i) (hl : i.target? = some l) : l ∈ targets ds :=
  List.mem_filterMap.mpr ⟨i, List.mem_of_getElem? hk, hl⟩

theorem mem_binds {l : Label} {ds : List Directive} :
    l ∈ binds ds ↔ ∃ p, boundAt? l ds = some p := by
  induction ds with
  | nil => simp [binds, boundAt?]
  | cons d ds ih =>
    cases d with
    | label => exact ih
    | emit i =>
      simp only [binds, boundAt?, ih]
      cases boundAt? l ds <;> simp
    | bind l' =>
      by_cases hl : l' = l
      · simp [binds, boundAt?, hl]
      · simp [binds, boundAt?, ih, hl, Ne.symm hl]

theorem boundAt_append (l : Label) (ds es : List Directive) :
    boundAt? l (ds ++ es) = (boundAt? l ds).or ((boundAt? l es).map (· + span ds)) := by
  induction ds with
  | nil => simp [boundAt?, span]
  | cons d ds ih =>
    cases d with
    | label => exact ih
    | emit i =>
      simp only [List.cons_append, boundAt?, ih, span]
      cases boundAt? l ds with
      | some p => rfl
      | none =>
        cases boundAt? l es with
        | none => rfl
        | some p => simp [Nat.add_assoc]
    | bind l' =>
      simp only [List.cons_append, boundAt?, ih, span]
      split <;> rfl

theorem boundAt_le {l : Label} {ds : List Directive} {p : Nat} (h : boundAt? l ds = some p) :
    p ≤ span ds := by
  induction ds generalizing p with
  | nil => cases h
  | cons d ds ih =>
    cases d with
    | label => exact ih h
    | emit i =>
      obtain ⟨q, hq, rfl⟩ := Option.map_eq_some_iff.mp h
      exact Nat.succ_le_succ (ih hq)
    | bind l' =>
      simp only [boundAt?] at h
      split at h
      · cases h
        exact Nat.zero_le _
      · exact ih h

/-- Instructions and labels lie within the code. -/
theorem within_span {ds : List Directive} {k p : Nat} {i : Instr Label} {l : Label}
    (hk : (emitted ds)[k]? = some i) (hp : boundAt? l ds = some p) :
    k < span ds ∧ p ≤ span ds := by
  obtain ⟨hlt, -⟩ := List.getElem?_eq_some_iff.mp hk
  rw [length_emitted] at hlt
  exact ⟨hlt, boundAt_le hp⟩

/-- The labels are bound at the places given; the code starts at an index. -/
def Placed (place : Label → Int) : List Directive → Nat → Prop
  | [], _ => True
  | .emit _ :: rest, k => Placed place rest (k + 1)
  | .label :: rest, k => Placed place rest k
  | .bind l :: rest, k => place l = k ∧ Placed place rest k

theorem placed_append {place : Label → Int} {ds es : List Directive} {k : Nat} :
    Placed place (ds ++ es) k ↔ Placed place ds k ∧ Placed place es (k + span ds) := by
  induction ds generalizing k with
  | nil => simp [Placed, span]
  | cons d ds ih =>
    cases d with
    | emit i =>
      have hk : k + 1 + span ds = k + (span ds + 1) := by omega
      simp only [List.cons_append, Placed, ih, span, hk]
    | label => simp only [List.cons_append, Placed, ih, span]
    | bind l => simp only [List.cons_append, Placed, ih, span, and_assoc]

/-- A list that binds no label twice puts each where it binds it. -/
theorem placed_of_boundAt {place : Label → Int} {ds : List Directive} {k : Nat}
    (hnodup : (binds ds).Nodup)
    (h : ∀ l (p : Nat), boundAt? l ds = some p → place l = (k + p : Nat)) : Placed place ds k := by
  induction ds generalizing k with
  | nil => trivial
  | cons d ds ih =>
    cases d with
    | label => exact ih hnodup h
    | emit i =>
      refine ih hnodup fun l p hp => ?_
      rw [h l (p + 1) (by simp [boundAt?, hp])]
      omega
    | bind l' =>
      obtain ⟨hfresh, hrest⟩ := List.nodup_cons.mp hnodup
      refine ⟨h l' 0 (by simp [boundAt?]), ih hrest fun l p hp => h l p ?_⟩
      have hne : l' ≠ l := fun heq => hfresh (heq ▸ mem_binds.mpr ⟨p, hp⟩)
      simp only [boundAt?, if_neg hne, hp]

/-- Every instruction has a property, which may depend on its index. -/
def Along (P : Nat → Instr Label → Prop) : List Directive → Nat → Prop
  | [], _ => True
  | .emit i :: rest, k => P k i ∧ Along P rest (k + 1)
  | .label :: rest, k => Along P rest k
  | .bind _ :: rest, k => Along P rest k

theorem along_append {P : Nat → Instr Label → Prop} {ds es : List Directive} {k : Nat} :
    Along P (ds ++ es) k ↔ Along P ds k ∧ Along P es (k + span ds) := by
  induction ds generalizing k with
  | nil => simp [Along, span]
  | cons d ds ih =>
    cases d with
    | emit i =>
      have hk : k + 1 + span ds = k + (span ds + 1) := by omega
      simp only [List.cons_append, Along, ih, span, hk, and_assoc]
    | label => simp only [List.cons_append, Along, ih, span]
    | bind l => simp only [List.cons_append, Along, ih, span]

theorem Along.instr {P : Nat → Instr Label → Prop} {ds : List Directive} {n k : Nat}
    {i : Instr Label} (h : Along P ds n) (hk : (emitted ds)[k]? = some i) : P (n + k) i := by
  induction ds generalizing n k with
  | nil => simp [emitted] at hk
  | cons d ds ih =>
    cases d with
    | label => exact ih h hk
    | bind l => exact ih h hk
    | emit j =>
      cases k with
      | zero =>
        obtain rfl : j = i := Option.some.inj hk
        exact h.1
      | succ k =>
        have hnext := ih h.2 hk
        rwa [show n + 1 + k = n + (k + 1) by omega] at hnext

/-- The operands fit in their fields. -/
def Instr.Encodable : Instr Label → Prop
  | arith _ _ _ _ imm => fitsImm12 imm = true
  | loadByte _ _ imm => fitsImm12 imm = true
  | storeByte _ _ imm => fitsImm12 imm = true
  | pair _ _ _ _ _ offset => fitsPair offset = true
  | branchIfBit _ bit _ => bit ≤ 31
  | _ => True

/-- The assembler accepts an instruction exactly when its operands fit. -/
theorem Instr.encodable_iff {i : Instr Label} :
    i.Encodable ↔ i.refusal? = none ∧ i.immediateFault? = none := by
  cases i with
  | arith | loadByte | storeByte => simp [Encodable, refusal?, immediateFault?]
  | pair | branchIfBit => simp [Encodable, refusal?, immediateFault?]
  | movFromSp | mov | subReg | cmp | call | ret | nop =>
    exact ⟨fun _ => ⟨rfl, rfl⟩, fun _ => trivial⟩
  | branch | branchIfZero | branchIfNotZero | branchIf =>
    exact ⟨fun _ => ⟨rfl, rfl⟩, fun _ => trivial⟩

end TapeLang.A64

namespace TapeLang.Native

open A64

namespace Layout

/-- The label is one of the first `n`. -/
def Made (n : Nat) (l : Label) : Prop := ∃ m < n, l = label m

theorem Made.mono {n m : Nat} {l : Label} (h : Made n l) (hle : n ≤ m) : Made m l := by
  obtain ⟨k, hk, rfl⟩ := h
  exact ⟨k, by omega, rfl⟩

/-- Every label is made before it is named, `n` having been made before. -/
def Declared : Nat → List Directive → Prop
  | _, [] => True
  | n, .emit i :: rest => (∀ l, i.target? = some l → Made n l) ∧ Declared n rest
  | n, .label :: rest => Declared (n + 1) rest
  | n, .bind l :: rest => Made n l ∧ Declared n rest

theorem declared_append {n : Nat} {ds es : List Directive} :
    Declared n (ds ++ es) ↔ Declared n ds ∧ Declared (n + labelsIn ds) es := by
  induction ds generalizing n with
  | nil => simp [Declared, labelsIn]
  | cons d ds ih =>
    cases d with
    | label =>
      have hn : n + 1 + labelsIn ds = n + (labelsIn ds + 1) := by omega
      simp only [List.cons_append, Declared, ih, labelsIn, hn]
    | emit i => simp only [List.cons_append, Declared, ih, labelsIn, and_assoc]
    | bind l => simp only [List.cons_append, Declared, ih, labelsIn, and_assoc]

/-- Labels in the order they are made. -/
def labelsFrom (n k : Nat) : List Label := (List.range' n k).map label

theorem labelsFrom_add (n j k : Nat) :
    labelsFrom n (j + k) = labelsFrom n j ++ labelsFrom (n + j) k := by
  simp only [labelsFrom, ← List.map_append, List.range'_append_1]

theorem toInt_label {n : Nat} (h : n < 2 ^ 63) : (label n).toInt = n := Int64.toInt_ofNat_of_lt h

theorem label_inj {m n : Nat} (hm : m < 2 ^ 63) (hn : n < 2 ^ 63) (h : label m = label n) :
    m = n := by
  have heq := congrArg Int64.toInt h
  rw [toInt_label hm, toInt_label hn] at heq
  omega

theorem mem_labelsFrom {n k : Nat} {l : Label} :
    l ∈ labelsFrom n k ↔ ∃ m, n ≤ m ∧ m < n + k ∧ l = label m := by
  simp only [labelsFrom, List.mem_map, List.mem_range'_1, and_assoc, eq_comm]

theorem nodup_labelsFrom {n k : Nat} (h : n + k ≤ 2 ^ 63) : (labelsFrom n k).Nodup := by
  have hrange : (List.range' n k).Nodup := List.nodup_range'
  rw [labelsFrom, List.Nodup, List.pairwise_map]
  refine hrange.imp_of_mem ?_
  intro i j hi hj hne heq
  rw [List.mem_range'_1] at hi hj
  exact hne (label_inj (by omega) (by omega) heq)

/-- A branch is unconditional, or is conditional and counts on near targets, or leads over at most
two instructions. -/
def Close (o : Options) (place : Label → Int) (k : Nat) (i : Instr Label) : Prop :=
  ∀ l, i.target? = some l →
    i = .branch l ∨ (o.farBranches = false ∧ i.field = ⟨19, 5⟩) ∨ (k ≤ place l ∧ place l ≤ k + 3)

/-- What a piece of the layout does with labels when `n` have been made: it binds those that it
makes, each of them once; it branches only to them and to the outer ones; and branches that have to
be short are. -/
structure Tidy (o : Options) (outer : List Label) (n : Nat) (ds : List Directive) : Prop where
  declared : (∀ l ∈ outer, Made n l) → Declared n ds
  bound : (binds ds).Perm (labelsFrom n (labelsIn ds))
  closed : ∀ l ∈ targets ds, l ∈ binds ds ∨ l ∈ outer
  close : ∀ place k, Placed place ds k → Along (Close o place) ds k

namespace Tidy

variable {o : Options} {outer outer' : List Label} {n : Nat} {ds es : List Directive}

theorem mono (h : Tidy o outer n ds) (hsub : outer ⊆ outer') : Tidy o outer' n ds where
  declared hmade := h.declared fun l hl => hmade l (hsub hl)
  bound := h.bound
  closed l hl := (h.closed l hl).imp_right fun hl => hsub hl
  close := h.close

theorem append (hd : Tidy o outer n ds) (he : Tidy o outer (n + labelsIn ds) es) :
    Tidy o outer n (ds ++ es) where
  declared hmade :=
    declared_append.mpr
      ⟨hd.declared hmade, he.declared fun l hl => (hmade l hl).mono (Nat.le_add_right _ _)⟩
  bound := by
    rw [binds_append, labelsIn_append, labelsFrom_add]
    exact hd.bound.append he.bound
  closed l hl := by
    rw [targets_append, List.mem_append] at hl
    rw [binds_append, List.mem_append]
    rcases hl with hl | hl
    · exact (hd.closed l hl).imp_left .inl
    · exact (he.closed l hl).imp_left .inr
  close place k hplaced := by
    obtain ⟨hds, hes⟩ := placed_append.mp hplaced
    exact along_append.mpr ⟨hd.close place k hds, he.close place _ hes⟩

/-- Instructions that branch to outer labels, if anywhere. -/
theorem emits (is : List (Instr Label))
    (h : ∀ i ∈ is, ∀ l, i.target? = some l →
      l ∈ outer ∧ (i = .branch l ∨ (o.farBranches = false ∧ i.field = ⟨19, 5⟩))) :
    Tidy o outer n (is.map .emit) := by
  refine ⟨fun hmade => ?_, ?_, ?_, fun place k _ => ?_⟩
  · induction is with
    | nil => trivial
    | cons i is ih =>
      exact ⟨fun l hl => hmade l (h i List.mem_cons_self l hl).1,
        ih fun j hj => h j (List.mem_cons_of_mem i hj)⟩
  · rw [binds_emits, labelsIn_emits]
    exact .refl _
  · intro l hl
    rw [targets, emitted_emits, List.mem_filterMap] at hl
    obtain ⟨i, hi, hl⟩ := hl
    exact .inr (h i hi l hl).1
  · induction is generalizing k with
    | nil => trivial
    | cons i is ih =>
      refine ⟨fun l hl => ?_, ih (fun j hj => h j (List.mem_cons_of_mem i hj)) _ ?_⟩
      · rcases (h i List.mem_cons_self l hl).2 with hbranch | hnear
        · exact .inl hbranch
        · exact .inr (.inl hnear)
      · assumption

theorem plain (is : List (Instr Label)) (h : is.filterMap Instr.target? = []) :
    Tidy o outer n (is.map .emit) := by
  refine .emits is fun i hi l hl => ?_
  have hl : l ∈ is.filterMap Instr.target? := List.mem_filterMap.mpr ⟨i, hi, hl⟩
  rw [h] at hl
  cases hl

theorem nil : Tidy o outer n [] := .plain [] rfl

/-- A branch over a short piece, by a label of its own. -/
theorem skip {i : Instr Label} (hi : i.target? = some (label n)) (h : Tidy o outer (n + 1) ds)
    (hspan : span ds ≤ 2) : Tidy o outer n (.label :: .emit i :: ds ++ [.bind (label n)]) := by
  have hmade : Made (n + 1) (label n) := ⟨n, Nat.lt_succ_self n, rfl⟩
  refine ⟨fun houter => ?_, ?_, ?_, ?_⟩
  · refine declared_append.mpr ⟨⟨?_, h.declared fun l hl => (houter l hl).mono (Nat.le_succ n)⟩, ?_⟩
    · intro l hl
      rw [hi] at hl
      cases hl
      exact hmade
    · refine ⟨hmade.mono ?_, trivial⟩
      simp only [labelsIn]
      omega
  · have hbound : (binds ds ++ [label n]).Perm (label n :: labelsFrom (n + 1) (labelsIn ds)) :=
      (List.perm_append_singleton _ _).trans (h.bound.cons _)
    simpa [binds, labelsIn, labelsFrom, List.range'_succ] using hbound
  · intro l hl
    rw [targets_append] at hl
    simp only [targets, emitted, List.filterMap_cons, hi, List.filterMap_nil, List.append_nil,
      List.mem_cons] at hl
    simp only [binds_append, binds, List.mem_append, List.mem_singleton]
    rcases hl with rfl | hl
    · exact .inl (.inr rfl)
    · exact (h.closed l hl).imp_left .inl
  · intro place k hplaced
    obtain ⟨hds, hend, -⟩ := placed_append.mp hplaced
    refine along_append.mpr ⟨⟨fun l hl => ?_, h.close place _ hds⟩, trivial⟩
    rw [hi] at hl
    cases hl
    simp only [span] at hend
    exact .inr (.inr ⟨by omega, by omega⟩)

/-- A loop around a piece that may branch to the loop's end. -/
theorem loop (h : Tidy o (label (n + 1) :: outer) (n + 2) ds) :
    Tidy o outer n ([.label, .label, .bind (label n)] ++ ds ++
      [.emit (.branch (label n)), .bind (label (n + 1))]) := by
  have hstop : Made (n + 2) (label (n + 1)) := ⟨n + 1, by omega, rfl⟩
  have hlast : n + 2 ≤ n + labelsIn ([.label, .label, .bind (label n)] ++ ds) := by
    simp only [labelsIn_append, labelsIn]
    omega
  refine ⟨fun houter => ?_, ?_, ?_, ?_⟩
  · refine declared_append.mpr ⟨⟨⟨n, by omega, rfl⟩, h.declared ?_⟩, ?_, hstop.mono hlast, trivial⟩
    · intro l hl
      rcases List.mem_cons.mp hl with rfl | hl
      · exact hstop
      · exact (houter l hl).mono (Nat.le_add_right n 2)
    · rintro l ⟨⟩
      exact ⟨n, by omega, rfl⟩
  · have hbound : (binds ds ++ [label (n + 1)]).Perm
        (label (n + 1) :: labelsFrom (n + 2) (labelsIn ds)) :=
      (List.perm_append_singleton _ _).trans (h.bound.cons _)
    simpa [binds, labelsIn, labelsFrom, List.range'_succ] using hbound.cons (label n)
  · intro l hl
    simp only [targets_append, List.mem_append] at hl
    simp only [binds_append, binds, List.mem_append, List.mem_cons, List.not_mem_nil, or_false]
    rcases hl with (hl | hl) | hl
    · cases hl
    · rcases h.closed l hl with hl | hl
      · exact .inl (.inl (.inr hl))
      · rcases List.mem_cons.mp hl with rfl | hl
        · exact .inl (.inr rfl)
        · exact .inr hl
    · obtain rfl : l = label n := by simpa [targets, emitted, Instr.target?] using hl
      exact .inl (.inl (.inl rfl))
  · intro place k hplaced
    obtain ⟨⟨-, hds⟩, -⟩ := placed_append.mp hplaced
    refine along_append.mpr ⟨h.close place _ hds, ?_, trivial⟩
    rintro l ⟨⟩
    exact .inl rfl

end Tidy

/-- The trap, if there is a check that leads to it. -/
def trapIf (checks : Nat) : List Label := if checks = 0 then [] else [Generator.trapLabel]

theorem trapIf_mono {c d : Nat} (h : c ≤ d) : trapIf c ⊆ trapIf d := by
  unfold trapIf
  split
  · exact List.nil_subset _
  · rw [if_neg (by omega)]
    exact List.Subset.refl _

section
variable (o : Options) {outer : List Label} {n : Nat}

theorem tidy_address (offset : Int64) : Tidy o outer n (addressCode o offset) := by
  unfold addressCode
  split
  · exact .nil
  · split
    · split
      · exact .plain [_] rfl
      · exact .nil
    · exact .plain [_] rfl

theorem span_address (offset : Int64) : span (addressCode o offset) ≤ 1 := by
  unfold addressCode
  split
  · exact Nat.zero_le 1
  · split
    · split
      · exact Nat.le_refl 1
      · exact Nat.zero_le 1
    · exact Nat.le_refl 1

theorem tidy_check (reg : Reg) : Tidy o [Generator.trapLabel] n (checkCode o n reg) := by
  unfold checkCode
  refine .append (.plain [_, _] rfl) ?_
  split
  · exact .skip rfl (.emits [_] (by simp [Instr.target?])) (Nat.le_succ 1)
  · rename_i hnear
    exact .emits [_] (by simp [Instr.target?, Instr.field, hnear])

theorem tidy_cell (offset : Int64) :
    Tidy o (trapIf (if o.boundsCheck then 1 else 0)) n (cellCode o n offset) := by
  unfold cellCode
  refine (tidy_address o offset).append ?_
  rw [labelsIn_address]
  split
  · exact tidy_check o _
  · exact .nil

theorem tidy_ask (offset : Int64) : Tidy o outer n (askCode o offset (label n)) := by
  have hstore : Tidy o outer (n + 1 + labelsIn (addressCode o offset))
      [.emit (.storeByte Reg.value (cellReg o offset) (cellOffset o offset))] :=
    .plain [_] rfl
  have hspan : span (addressCode o offset ++
      [.emit (.storeByte Reg.value (cellReg o offset) (cellOffset o offset))]) ≤ 2 := by
    rw [span_append]
    exact Nat.succ_le_succ (span_address o offset)
  have hskip := Tidy.skip (i := .branchIfBit Reg.value 31 (label n)) rfl
    ((tidy_address o offset).append hstore) hspan
  have hcall : Tidy o outer n [.emit (.mov 0 Reg.context), .emit (.call Reg.get)] :=
    .plain [_, _] rfl
  simpa [askCode] using hcall.append hskip

theorem tidy_move (delta : Int64) : Tidy o outer n (moveCode delta) := by
  unfold moveCode
  split
  · exact .plain [_] rfl
  · split
    · exact .plain [_] rfl
    · exact .nil

theorem tidy_sum (delta : Int64) (reg : Reg) (displacement : Int64) :
    Tidy o outer n (sumCode delta reg displacement) := by
  unfold sumCode
  split
  · exact .nil
  · split <;> exact .plain [_, _, _] rfl

theorem tidy_op (op : Op) :
    Tidy o (trapIf (if o.boundsCheck && op.offset?.isSome then 1 else 0)) n (opCode o n op) := by
  cases op with
  | move delta => exact tidy_move o delta
  | add delta offset =>
    simp only [Op.offset?, Option.isSome_some, Bool.and_true]
    exact (tidy_cell o offset).append (tidy_sum o delta _ _)
  | clear offset =>
    simp only [Op.offset?, Option.isSome_some, Bool.and_true]
    exact (tidy_cell o offset).append (.plain [_] rfl)
  | put offset =>
    simp only [Op.offset?, Option.isSome_some, Bool.and_true]
    exact (tidy_cell o offset).append (.plain [_, _, _] rfl)
  | get offset =>
    simp only [Op.offset?, Option.isSome_some, Bool.and_true]
    exact (tidy_cell o offset).append (tidy_ask o offset)
  | unknown => exact .nil

theorem tidy_leave (stop : Label) : Tidy o [stop] n (leaveCode o n stop) := by
  unfold leaveCode
  split
  · exact .skip rfl (.emits [_] (by simp [Instr.target?])) (Nat.le_succ 1)
  · rename_i hnear
    exact .emits [_] (by simp [Instr.target?, Instr.field, hnear])

/-- The test of a loop, which may lead to its end. -/
def testCode (n : Nat) (stop : Label) : List Directive :=
  cellCode o n 0 ++ .emit (.loadByte Reg.value Reg.pointer 0) ::
    leaveCode o (n + labelsIn (cellCode o n 0)) stop

theorem headCode_eq (n : Nat) :
    headCode o n = [.label, .label, .bind (label n)] ++ testCode o (n + 2) (label (n + 1)) := by
  simp [headCode, testCode]

theorem tidy_test (stop : Label) :
    Tidy o (stop :: trapIf (if o.boundsCheck then 1 else 0)) n (testCode o n stop) := by
  have hload : Tidy o [stop] (n + labelsIn (cellCode o n 0))
      [.emit (.loadByte Reg.value Reg.pointer 0)] := .plain [_] rfl
  have hleave := hload.append (tidy_leave o stop)
  exact ((tidy_cell o 0).mono (List.subset_cons_self _ _)).append
    (hleave.mono (List.cons_subset_cons _ (List.nil_subset _)))

theorem tidy_block (b : Block) : Tidy o (trapIf (checksIn o b)) n (blockCode o n b) := by
  induction b generalizing n with
  | nil => exact .nil
  | step op rest ih =>
    refine ((tidy_op o op).mono (trapIf_mono ?_)).append (ih.mono (trapIf_mono ?_))
    · simp only [checksIn]
      omega
    · simp only [checksIn]
      omega
  | loop body rest ihBody ihRest =>
    have hchecks : checksIn o (.loop body rest) =
      (if o.boundsCheck then 1 else 0) + checksIn o body + checksIn o rest := rfl
    generalize checksIn o (.loop body rest) = checks at hchecks
    have hhead : labelsIn (headCode o n) = labelsIn (testCode o (n + 2) (label (n + 1))) + 2 := by
      rw [headCode_eq, labelsIn_append, Nat.add_comm]
      rfl
    have htest := (tidy_test o (n := n + 2) (label (n + 1))).mono
      (List.cons_subset_cons _ (trapIf_mono (d := checks) (by omega)))
    simp only [blockCode]
    generalize hinside : n + labelsIn (headCode o n) = inside
    have hbody : Tidy o (label (n + 1) :: trapIf checks)
        (n + 2 + labelsIn (testCode o (n + 2) (label (n + 1)))) (blockCode o inside body) := by
      rw [show n + 2 + labelsIn (testCode o (n + 2) (label (n + 1))) = inside by omega]
      exact (ihBody.mono (trapIf_mono (by omega))).mono (List.subset_cons_self _ _)
    have hloop := (htest.append hbody).loop
    rw [← List.append_assoc, ← headCode_eq] at hloop
    refine hloop.append ?_
    rw [show n + labelsIn (headCode o n ++ blockCode o inside body ++
        [.emit (.branch (label n)), .bind (label (n + 1))]) =
          inside + labelsIn (blockCode o inside body) by
      simp only [labelsIn_append, labelsIn]
      omega]
    exact ihRest.mono (trapIf_mono (by omega))

theorem labelsIn_script (b : Block) : labelsIn (script o b) = labelsIn (blockCode o 2 b) + 2 := by
  have hstub : labelsIn (stubCode o b) = 0 := by
    unfold stubCode
    split
    · rfl
    · exact labelsIn_emits _
  simp only [script, labelsIn_append, labelsIn, labelsIn_emits, hstub]
  omega

theorem binds_script (b : Block) :
    binds (script o b) =
      binds (blockCode o 2 b) ++ Generator.exitLabel :: trapIf (checksIn o b) := by
  have hstub : binds (stubCode o b) = trapIf (checksIn o b) := by
    unfold stubCode trapIf
    split <;> rfl
  simp only [script, binds_append, binds, binds_emits, hstub, List.nil_append,
    List.append_assoc, List.cons_append]

/-- No label is bound twice. -/
theorem nodup_script {b : Block} (h : labelsIn (script o b) ≤ 2 ^ 63) :
    (binds (script o b)).Nodup := by
  rw [labelsIn_script] at h
  have hfirst : (Generator.exitLabel :: trapIf (checksIn o b)).Sublist (labelsFrom 0 2) := by
    unfold trapIf
    split
    · exact .cons_cons _ (.cons _ .slnil)
    · exact .refl _
  have hall := nodup_labelsFrom (n := 0) (k := 2 + labelsIn (blockCode o 2 b)) (by omega)
  rw [labelsFrom_add, Nat.zero_add] at hall
  have hsub := hall.sublist (hfirst.append (.refl _))
  rw [binds_script]
  exact (List.perm_append_comm.trans ((tidy_block o b).bound.append_left _)).nodup_iff.mpr hsub

/-- Every branch leads to a label that is bound. -/
theorem closed_script (b : Block) : ∀ l ∈ targets (script o b), l ∈ binds (script o b) := by
  intro l hl
  have hstub : ∀ l ∈ targets (stubCode o b), l = Generator.exitLabel := by
    unfold stubCode
    split
    · simp [targets, emitted]
    · intro l hl
      exact List.mem_singleton.mp hl
  rw [binds_script, List.mem_append, List.mem_cons]
  simp only [script, targets_append, List.mem_append] at hl
  rcases hl with (((hl | hl) | hl) | hl) | hl
  · cases hl
  · cases hl
  · exact ((tidy_block o b).closed l hl).imp_right .inr
  · cases hl
  · exact .inr (.inl (hstub l hl))

theorem tidy_prologue : Tidy o [] n (Generator.prologue.map .emit) :=
  .plain _ rfl

theorem tidy_epilogue : Tidy o [] n (Generator.epilogue.map .emit) :=
  .plain _ rfl

theorem tidy_report : Tidy o [Generator.exitLabel] n (Generator.trapStub.map .emit) :=
  .emits _ (by simp [Generator.trapStub, Instr.target?])

/-- Every label is made before it is named. -/
theorem declared_script (b : Block) : Declared 0 (script o b) := by
  have hexit (n : Nat) : Made (2 + n) Generator.exitLabel := ⟨0, by omega, rfl⟩
  have htrap (n : Nat) : Made (2 + n) Generator.trapLabel := ⟨1, by omega, rfl⟩
  have hblock : Declared 2 (blockCode o 2 b) := by
    refine (tidy_block o b).declared fun l hl => ?_
    unfold trapIf at hl
    split at hl
    · cases hl
    · exact List.mem_singleton.mp hl ▸ htrap 0
  have hstub (n : Nat) : Declared (2 + n) (stubCode o b) := by
    unfold stubCode
    split
    · trivial
    · exact ⟨htrap n, (tidy_report o).declared fun l hl => List.mem_singleton.mp hl ▸ hexit n⟩
  simp only [script, declared_append, labelsIn_append, labelsIn, labelsIn_emits, Nat.zero_add,
    Nat.add_zero, Nat.reduceAdd]
  exact ⟨⟨⟨⟨trivial, (tidy_prologue o).declared (by simp)⟩, hblock⟩, hexit _,
    (tidy_epilogue o).declared (by simp)⟩, hstub _⟩

/-- Branches of the layout that have to be short are. -/
theorem short_script {b : Block} {place : Label → Int} (h : Placed place (script o b) 0) :
    Along (Close o place) (script o b) 0 := by
  have hstub (k : Nat) :
      Placed place (stubCode o b) k → Along (Close o place) (stubCode o b) k := by
    unfold stubCode
    split
    · exact fun _ => trivial
    · exact fun hplaced => (tidy_report o (n := 2)).close place k hplaced.2
  simp only [script, placed_append, along_append] at h ⊢
  obtain ⟨⟨⟨⟨-, hpro⟩, hblock⟩, -, hepi⟩, hend⟩ := h
  exact ⟨⟨⟨⟨trivial, (tidy_prologue o (n := 2)).close place _ hpro⟩,
    (tidy_block o b).close place _ hblock⟩, (tidy_epilogue o (n := 2)).close place _ hepi⟩,
    hstub _ hend⟩

end

end Layout

end TapeLang.Native

namespace TapeLang.A64.Assembler

open Native Native.Layout

theorem knows_made {a : Assembler} {l : Label} (h : Made a.labels.size l)
    (hlabels : a.labels.size ≤ 2 ^ 63) : a.knows l = true := by
  obtain ⟨m, hm, rfl⟩ := h
  have hint := toInt_label (n := m) (by omega)
  simp only [knows, Bool.and_eq_true, decide_eq_true_eq, Int64.le_iff_toInt_le,
    Int64.toNatClampNeg, Int64.toInt_zero, hint]
  omega

theorem fault_emit {a : Assembler} (ha : a.fault = none) {i : Instr Label} (hi : i.Encodable)
    (htarget : ∀ l, i.target? = some l → a.knows l = true) : (a.emit i).fault = none := by
  obtain ⟨hrefusal, himmediate⟩ := Instr.encodable_iff.mp hi
  unfold emit
  rw [hrefusal]
  cases ht : i.target? with
  | none =>
    dsimp only
    rw [himmediate]
    exact ha
  | some l =>
    dsimp only
    rw [if_pos (htarget l ht)]
    exact ha

theorem fault_bind {a : Assembler} (ha : a.fault = none) {l : Label} (hknown : a.knows l = true)
    (hfree : a.position? l = none) : (a.bind l).fault = none := by
  unfold bind
  rw [if_pos hknown, hfree]
  exact ha

/-- Where nothing was refused, every instruction could be encoded. -/
theorem encodable_of_fault {a : Assembler} {ds : List Directive}
    (h : (a.obeyAll ds).fault = none) : ∀ i ∈ emitted ds, i.Encodable := by
  induction ds generalizing a with
  | nil => exact nofun
  | cons d ds ih =>
    have hfirst : (a.obey d).fault = none := fault_obeyAll h
    cases d with
    | label => exact ih h
    | bind l => exact ih h
    | emit i =>
      obtain ⟨-, hrefusal, himmediate, -⟩ := emit_ok hfirst
      intro j hj
      rcases List.mem_cons.mp hj with rfl | hj
      · exact Instr.encodable_iff.mpr ⟨hrefusal, himmediate⟩
      · exact ih h j hj

/-- Directives that name only labels that are made, bind each at most once and can be encoded are
never refused. -/
theorem fault_obeyAll_none {a : Assembler} {ds : List Directive} (ha : a.fault = none)
    (hdeclared : Declared a.labels.size ds) (hlabels : a.labels.size + labelsIn ds ≤ 2 ^ 63)
    (hencode : ∀ i ∈ emitted ds, i.Encodable) (hnodup : (binds ds).Nodup)
    (hfree : ∀ l ∈ binds ds, a.position? l = none) : (a.obeyAll ds).fault = none := by
  induction ds generalizing a with
  | nil => exact ha
  | cons d ds ih =>
    cases d with
    | label =>
      have hsize : a.addLabel.labels.size = a.labels.size + 1 := Array.size_push _
      refine ih (a := a.addLabel) ha (hsize ▸ hdeclared) ?_ hencode hnodup ?_
      · rw [hsize]
        simp only [labelsIn] at hlabels
        omega
      · intro l hl
        rw [position_addLabel]
        exact hfree l hl
    | emit i =>
      have hfault := fault_emit ha (hencode i List.mem_cons_self) fun l hl =>
        knows_made (hdeclared.1 l hl) (by omega)
      have hsame := Generator.labels_emit a i
      refine ih (a := a.emit i) hfault (hsame ▸ hdeclared.2) (hsame ▸ hlabels)
        (fun j hj => hencode j (List.mem_cons_of_mem i hj)) hnodup ?_
      intro l hl
      simp only [position?, hsame]
      exact hfree l hl
    | bind l =>
      obtain ⟨hfresh, hnodup⟩ := List.nodup_cons.mp hnodup
      have hfault := fault_bind ha (knows_made hdeclared.1 (by omega))
        (hfree l List.mem_cons_self)
      have hsame := Generator.size_labels_bind a l
      refine ih (a := a.bind l) hfault (hsame ▸ hdeclared.2) (hsame ▸ hlabels) hencode hnodup ?_
      intro l' hl'
      rw [position_bind_ne hfault fun heq => hfresh (heq ▸ hl')]
      exact hfree l' (List.mem_cons_of_mem l hl')

end TapeLang.A64.Assembler
