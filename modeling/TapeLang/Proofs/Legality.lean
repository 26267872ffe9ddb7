import Mathlib.Algebra.Group.Int.Defs
import Mathlib.Algebra.Group.Nat.Defs
import TapeLang.Proofs.Links
import TapeLang.Proofs.RewriteOrder

namespace TapeLang

theorem natAbs_add_le (a b : Int64) :
    (a + b).toInt.natAbs ≤ a.toInt.natAbs + b.toInt.natAbs := by
  rw [Int64.toInt_add, Int.bmod]
  split <;> omega

/-- Only the lowest word has no absolute value. -/
theorem toInt_abs {d : Int64} (h : d.toInt.natAbs < 2 ^ 63) : d.abs.toInt = d.toInt.natAbs := by
  have hne : d.toBitVec ≠ BitVec.intMin 64 := by
    intro hmin
    have hd : d.toInt = -2 ^ 63 := by
      rw [← Int64.toInt_toBitVec, hmin]
      decide
    omega
  rw [← Int64.toInt_toBitVec, Int64.toBitVec_abs, BitVec.toInt_abs_eq_natAbs_of_ne_intMin hne,
    Int64.toInt_toBitVec]

/-- An instruction can carry the number. -/
def Carried (n : Int64) : Prop := n.toInt.natAbs ≤ 4095

theorem carried_of_abs {n : Int64} (hn : n.toInt.natAbs < 2 ^ 63) (h : ¬ n.abs > maxImmediate) :
    Carried n := by
  rw [gt_iff_lt, Int64.lt_iff_toInt_lt, toInt_abs hn, show maxImmediate.toInt = 4095 from rfl] at h
  unfold Carried
  omega

/-- The number counts as short: it fits, or it is the lowest word. -/
def Short (n : Int64) : Prop := Carried n ∨ n = Int64.minValue

theorem natAbs_lt {n : Int64} (h : n ≠ Int64.minValue) : n.toInt.natAbs < 2 ^ 63 := by
  have hlow := Int64.le_toInt n
  have hhigh := Int64.toInt_lt n
  have hne : n.toInt ≠ -2 ^ 63 := fun hmin => h (Int64.toInt_inj.mp hmin)
  omega

theorem short_iff {n : Int64} : Short n ↔ ¬ n.abs > maxImmediate := by
  by_cases hmin : n = Int64.minValue
  · subst hmin
    exact ⟨fun _ => by decide, fun _ => .inr rfl⟩
  · have hlt := natAbs_lt hmin
    refine ⟨?_, fun h => .inl (carried_of_abs hlt h)⟩
    rintro (h | h)
    · unfold Carried at h
      rw [gt_iff_lt, Int64.lt_iff_toInt_lt, toInt_abs hlt, show maxImmediate.toInt = 4095 from rfl]
      omega
    · exact absurd h hmin

theorem toInt_byteDelta (d : Int64) :
    -128 ≤ (byteDelta d).toInt ∧ (byteDelta d).toInt ≤ 127 := by
  have hbase : (256 : Int64).toInt = 256 := rfl
  have hrem : -256 < (d % 256).toInt ∧ (d % 256).toInt < 256 := by
    rw [Int64.toInt_mod, hbase]
    exact ⟨Int.lt_tmod_of_pos _ (by decide), Int.tmod_lt_of_pos _ (by decide)⟩
  have hshift : (d % 256 + 256).toInt = (d % 256).toInt + 256 := by
    rw [Int64.toInt_add, hbase]
    exact Int.bmod_eq_of_le (by omega) (by omega)
  have hr : 0 ≤ ((d % 256 + 256) % 256).toInt ∧ ((d % 256 + 256) % 256).toInt < 256 := by
    rw [Int64.toInt_mod, hbase, hshift]
    exact ⟨Int.tmod_nonneg _ (by omega), Int.tmod_lt_of_pos _ (by decide)⟩
  unfold byteDelta
  dsimp only
  split
  · rename_i hlarge
    rw [gt_iff_lt, Int64.lt_iff_toInt_lt, show (127 : Int64).toInt = 127 from rfl] at hlarge
    rw [Int64.toInt_sub, hbase, Int.bmod_eq_of_le (by omega) (by omega)]
    omega
  · rename_i hsmall
    rw [gt_iff_lt, Int64.lt_iff_toInt_lt, show (127 : Int64).toInt = 127 from rfl] at hsmall
    omega

theorem carried_byteDelta (d : Int64) : Carried (byteDelta d) := by
  have h := toInt_byteDelta d
  unfold Carried
  omega

namespace Op

/-- The step is known, and the cell that it touches is at most `r` away. -/
def Within (r : Nat) (op : Op) : Prop :=
  op ≠ .unknown ∧ ∀ offset, op.offset? = some offset → offset.toInt.natAbs ≤ r

/-- Every number of the step fits in an instruction. -/
def Legal : Op → Prop
  | move delta => Carried delta
  | add delta offset => Carried delta ∧ Carried offset
  | clear offset => Carried offset
  | put offset => Carried offset
  | get offset => Carried offset
  | unknown => False

/-- How far a step moves; any other step counts as one. -/
def weight : Op → Nat
  | move delta => delta.toInt.natAbs
  | _ => 1

theorem weight_withOffset (offset : Int64) (op : Op) :
    (op.withOffset offset).weight = op.weight := by
  cases op <;> rfl

theorem weight_touching {op : Op} {offset : Int64} (h : op.offset? = some offset) :
    op.weight = 1 := by
  cases op <;> first | rfl | cases h

end Op

namespace Block

def Within (r : Nat) : Block → Prop
  | nil => True
  | step op rest => op.Within r ∧ rest.Within r
  | loop body rest => body.Within r ∧ rest.Within r

def Legal : Block → Prop
  | nil => True
  | step op rest => op.Legal ∧ rest.Legal
  | loop body rest => body.Legal ∧ rest.Legal

/-- The number of entries, with every move as long as it goes. -/
def weight : Block → Nat
  | nil => 0
  | step op rest => op.weight + rest.weight
  | loop body rest => 1 + body.weight + rest.weight

theorem weightOrder : RewriteOrder fun b b' => b.weight ≤ b'.weight where
  refl b := Nat.le_refl _
  trans := Nat.le_trans
  step op _ _ hrest := Nat.add_le_add_left hrest op.weight
  loop hbody hrest := Nat.add_le_add (Nat.add_le_add_left hbody 1) hrest
  move_zero rest := Nat.le_add_left _ _
  zero_move rest := Nat.le_of_eq (Nat.zero_add _)
  move_move delta delta' rest := by
    have hsum := natAbs_add_le delta delta'
    simp only [weight, Op.weight]
    omega
  move_step ho delta rest := by
    simp only [weight, Op.weight_withOffset]
    omega
  add_byteDelta delta offset rest := Nat.le_refl _
  add_add delta delta' offset rest := Nat.le_add_left _ _

theorem weight_clearsLoops : ClearsLoops fun b b' => b.weight ≤ b'.weight := by
  intro delta _ rest
  simp only [weight, Op.weight]
  omega

section within

variable {r : Nat} {b : Block}

theorem within_iff : b.Within r ↔ b.Every (Op.Within r) := by
  induction b with
  | nil => exact Iff.rfl
  | step op rest ih => exact and_congr Iff.rfl ih
  | loop body rest ihBody ihRest => exact and_congr ihBody ihRest

theorem within_coalesce (hb : b.Within r) : b.coalesce.Within r := by
  refine within_iff.mpr (every_coalesce ?_ ?_ (within_iff.mp hb))
  · exact fun _ => ⟨nofun, nofun⟩
  · exact fun _ _ _ hadd => ⟨nofun, hadd.2⟩

theorem within_zeroIdiom (hb : b.Within r) : b.zeroIdiom.Within r := by
  refine within_iff.mpr (every_zeroIdiom ⟨nofun, ?_⟩ (within_iff.mp hb))
  rintro offset ⟨⟩
  exact Nat.zero_le r

theorem within_moved (hb : b.Within r) (delta : Int64) : (moved delta b).Within r :=
  within_iff.mpr (every_moved (fun _ => ⟨nofun, nofun⟩) (within_iff.mp hb) delta)

theorem Within.mono {s : Nat} (hb : b.Within r) (hle : r ≤ s) : b.Within s := by
  refine within_iff.mpr ((within_iff.mp hb).imp fun op hop => ⟨hop.1, fun offset ho => ?_⟩)
  exact Nat.le_trans (hop.2 offset ho) hle

theorem offset_withOffset {op : Op} {offset : Int64} (h : op.offset? = some offset)
    (offset' : Int64) : (op.withOffset offset').offset? = some offset' ∧
      op.withOffset offset' ≠ .unknown := by
  cases op <;> first | exact ⟨rfl, nofun⟩ | cases h

/-- Folding keeps offsets short, as long as the moves do not run around the words. -/
theorem within_foldOffsets (hb : b.Within 0) {pending : Int64}
    (hw : pending.toInt.natAbs + b.weight < 2 ^ 63) : (b.foldOffsets pending).Within 4095 := by
  induction b using touchingRec generalizing pending with
  | nil => exact within_moved (b := nil) trivial pending
  | loop body rest ihBody ihRest =>
    simp only [weight] at hw
    refine within_moved (b := loop _ _) ⟨ihBody hb.1 ?_, ihRest hb.2 ?_⟩ pending <;>
      simp only [Int64.toInt_zero, Int.natAbs_zero] <;> omega
  | move delta rest ih =>
    have hsum := natAbs_add_le pending delta
    simp only [weight, Op.weight] at hw
    exact ih hb.2 (by omega)
  | unknown rest ih => exact absurd rfl hb.1.1
  | touch op offset rest ho ih =>
    simp only [weight] at hw
    rw [foldOffsets_touching ho]
    have hhere := hb.1.2 offset ho
    split
    · obtain ⟨hoffset, hknown⟩ := offset_withOffset ho offset
      have hrest : (rest.foldOffsets 0).Within 4095 := by
        apply ih hb.2
        simp only [Int64.toInt_zero, Int.natAbs_zero]
        omega
      refine within_moved (b := step _ _) ⟨⟨hknown, ?_⟩, hrest⟩ pending
      intro o h
      rw [hoffset] at h
      cases h
      omega
    · rename_i hshort
      obtain ⟨hoffset, hknown⟩ := offset_withOffset ho (pending + offset)
      have hsum := natAbs_add_le pending offset
      refine ⟨⟨hknown, ?_⟩, ih hb.2 (by omega)⟩
      intro o h
      rw [hoffset] at h
      cases h
      rw [Op.weight_touching ho] at hw
      exact carried_of_abs (by omega) hshort

end within

section legal

theorem Legal.known {b : Block} (h : b.Legal) : b.Known := by
  induction b with
  | nil => trivial
  | step op rest ih =>
    refine ⟨?_, ih h.2⟩
    rintro rfl
    exact h.1
  | loop body rest ihBody ihRest => exact ⟨ihBody h.1, ihRest h.2⟩

theorem legal_repeatMove {delta : Int64} {rest : Block} (hd : Carried delta) (hrest : rest.Legal)
    (n : Nat) : (repeatMove delta rest n).Legal := by
  induction n with
  | zero => exact hrest
  | succ n ih => exact ⟨hd, ih⟩

theorem count_repeatMove (delta : Int64) (rest : Block) (n : Nat) :
    (repeatMove delta rest n).count = n + rest.count := by
  induction n with
  | zero => simp [repeatMove]
  | succ n ih =>
    simp only [repeatMove, count, ih]
    omega

theorem fullMoves_eq {delta : Int64} (h : delta.toInt.natAbs < 2 ^ 63) :
    fullMoves delta = (delta.toInt.natAbs - 1) / 4095 := by
  unfold fullMoves
  rw [Int64.toNatClampNeg, toInt_abs h, Int.toNat_natCast,
    show maxImmediate.toNatClampNeg = 4095 from rfl]

/-- What is left of a move after pieces of full length. -/
theorem toInt_leftover (delta : Int64) {full : Int64} {n : Nat} (hn : n * 4095 < 2 ^ 63)
    (hfull : full.toInt.natAbs = 4095) (hleft : (delta.toInt - n * full.toInt).natAbs < 2 ^ 63) :
    (delta - Int64.ofNat n * full).toInt = delta.toInt - n * full.toInt := by
  have hprod : (Int64.ofNat n * full).toInt = n * full.toInt := by
    rw [Int64.toInt_mul, Int64.toInt_ofNat_of_lt (by omega)]
    rcases Int.natAbs_eq_iff.mp hfull with h | h <;> rw [h] <;>
      exact Int.bmod_eq_of_le (by omega) (by omega)
  rw [Int64.toInt_sub, hprod]
  exact Int.bmod_eq_of_le (by omega) (by omega)

/-- A split move is pieces of full length and one move by what is left, which add up to the move. An
instruction can carry each of them, and there are no more of them than the move has cells to go. -/
theorem splitMove_eq {delta : Int64} (h : delta.toInt.natAbs < 2 ^ 63) :
    ∃ (full left : Int64) (n : Nat),
      (∀ rest, splitMove delta rest = repeatMove full (moved left rest) n) ∧
      Int64.ofNat n * full + left = delta ∧ full.toInt.natAbs = 4095 ∧ Carried left ∧
      n + left.toInt.natAbs ≤ delta.toInt.natAbs := by
  unfold splitMove
  dsimp only
  rw [fullMoves_eq h]
  generalize hfull : (if delta < 0 then -maxImmediate else maxImmediate) = full
  generalize hn : (delta.toInt.natAbs - 1) / 4095 = n
  -- The pieces go the way of the move, so what is left is shorter than one of them.
  have hway : full.toInt = if delta.toInt < 0 then -4095 else 4095 := by
    rw [← hfull]
    simp only [Int64.lt_iff_toInt_lt, Int64.toInt_zero]
    split <;> rfl
  have hsize : full.toInt.natAbs = 4095 := by
    rw [hway]
    split <;> rfl
  have hshort : (delta.toInt - n * full.toInt).natAbs ≤ 4095 ∧
      n + (delta.toInt - n * full.toInt).natAbs ≤ delta.toInt.natAbs := by
    rw [hway]
    split <;> omega
  have hleft := toInt_leftover delta (n := n) (by omega) hsize (by omega)
  refine ⟨full, _, n, fun rest => rfl, ?_, hsize, ?_, ?_⟩
  · rw [Int64.add_comm, Int64.sub_add_cancel]
  · unfold Carried
    omega
  · omega

/-- The pieces of a split move fit, and there are no more of them than it has cells to go. -/
theorem splitMove_fits {delta : Int64} {rest : Block} (h : delta.toInt.natAbs < 2 ^ 63)
    (hrest : rest.Legal) : (splitMove delta rest).Legal ∧
      (splitMove delta rest).count ≤ delta.toInt.natAbs + rest.count := by
  obtain ⟨full, left, n, heq, -, hfull, hleft, hpieces⟩ := splitMove_eq h
  have hmoved : (moved left rest).Legal ∧
      (moved left rest).count ≤ left.toInt.natAbs + rest.count := by
    unfold moved
    split
    · exact ⟨hrest, Nat.le_add_left _ _⟩
    · rename_i hne
      have hcells : left.toInt ≠ 0 := fun hzero => hne (Int64.toInt_inj.mp hzero)
      refine ⟨⟨hleft, hrest⟩, ?_⟩
      simp only [count]
      omega
  rw [heq]
  refine ⟨legal_repeatMove (Nat.le_of_eq hfull) hmoved.1 n, ?_⟩
  rw [count_repeatMove]
  omega

/-- A step with a short offset stays as it is. -/
theorem legalStep_short {op : Op} (h : ∀ offset, op.offset? = some offset → Short offset)
    (rest : Block) : legalStep op rest = step op rest := by
  unfold legalStep
  split
  · rfl
  · rename_i offset ho
    rw [if_neg (short_iff.mp (h offset ho))]

theorem legalStep_within {op : Op} (h : op.Within 4095) (rest : Block) :
    legalStep op rest = step op rest :=
  legalStep_short (fun offset ho => .inl (h.2 offset ho)) rest

theorem legalize_fits {b : Block} (hb : b.Within 4095) (hw : b.weight < 2 ^ 63) :
    b.legalize.Legal ∧ b.legalize.count ≤ b.weight := by
  induction b with
  | nil => exact ⟨trivial, Nat.le_refl _⟩
  | loop body rest ihBody ihRest =>
    simp only [weight] at hw
    obtain ⟨hbody, hbodyCount⟩ := ihBody hb.1 (by omega)
    obtain ⟨hrest, hrestCount⟩ := ihRest hb.2 (by omega)
    refine ⟨⟨hbody, hrest⟩, ?_⟩
    simp only [legalize, count, weight]
    omega
  | step op rest ih =>
    simp only [weight] at hw
    obtain ⟨hrest, hcount⟩ := ih hb.2 (by omega)
    have hkept {op' : Op} (hwithin : op'.Within 4095) (hlegal : op'.Legal)
        (hone : op.weight = 1) : (legalStep op' rest.legalize).Legal ∧
          (legalStep op' rest.legalize).count ≤ op.weight + rest.weight := by
      rw [legalStep_within hwithin]
      refine ⟨⟨hlegal, hrest⟩, ?_⟩
      simp only [count]
      omega
    cases op with
    | move delta =>
      simp only [Op.weight] at hw
      obtain ⟨hmove, hmoveCount⟩ := splitMove_fits (show delta.toInt.natAbs < 2 ^ 63 by omega) hrest
      exact ⟨hmove, Nat.le_trans hmoveCount (Nat.add_le_add_left hcount _)⟩
    | add delta offset =>
      exact hkept ⟨nofun, hb.1.2⟩ ⟨carried_byteDelta delta, hb.1.2 offset rfl⟩ rfl
    | clear offset => exact hkept hb.1 (hb.1.2 offset rfl) rfl
    | put offset => exact hkept hb.1 (hb.1.2 offset rfl) rfl
    | get offset => exact hkept hb.1 (hb.1.2 offset rfl) rfl
    | unknown => exact absurd rfl hb.1.1

theorem Within.known {r : Nat} {b : Block} (hb : b.Within r) : b.Known :=
  known_iff.mpr ((within_iff.mp hb).imp fun _ hop => hop.1)

theorem weight_rewritten {b : Block} (hb : b.Known) (passes : PassSet) :
    (b.rewritten passes).weight ≤ b.weight :=
  weightOrder.rewritten (fun _ => weight_clearsLoops) hb

theorem within_rewritten {b : Block} (hb : b.Within 0) (hw : b.weight < 2 ^ 63)
    (passes : PassSet) : (b.rewritten passes).Within 4095 := by
  let Kept (c : Block) : Prop := c.Within 0 ∧ c.weight < 2 ^ 63
  have hcoalesce : Kept (applyIf (passes.contains .coalesce) coalesce b) :=
    applyIf_rule _ ⟨hb, hw⟩
      ⟨within_coalesce hb, Nat.lt_of_le_of_lt (weightOrder.coalesce b) hw⟩
  have hidiom := applyIf_rule (P := Kept) (passes.contains .zeroIdiom) hcoalesce
    ⟨within_zeroIdiom hcoalesce.1,
      Nat.lt_of_le_of_lt (weightOrder.zeroIdiom weight_clearsLoops _) hcoalesce.2⟩
  apply applyIf_rule
  · exact hidiom.1.mono (Nat.zero_le _)
  · apply within_foldOffsets hidiom.1
    rw [Int64.toInt_zero, Int.natAbs_zero, Nat.zero_add]
    exact hidiom.2

/-- A block that only touches the current cell is legal once optimized, and has no more entries
than it had, moves by their lengths. -/
theorem optimize_fits {b : Block} (hb : b.Within 0) (hw : b.weight < 2 ^ 63) (passes : PassSet) :
    (b.optimize passes).Legal ∧ (b.optimize passes).count ≤ b.weight := by
  have hless := weight_rewritten hb.known passes
  obtain ⟨hlegal, hcount⟩ := legalize_fits (within_rewritten hb hw passes) (by omega)
  exact ⟨hlegal, Nat.le_trans hcount hless⟩

end legal

end Block

theorem Kind.unit_op {kind : Kind} {op : Op} (h : kind.op? = some op) :
    op.Within 0 ∧ op.weight = 1 := by
  cases kind <;> cases h <;> exact ⟨⟨nofun, by rintro _ ⟨⟩ <;> decide⟩, by decide⟩

theorem Linked.units {is : Array Instruction} {i stop : Nat} {b : Block} (h : Linked is i stop b) :
    b.Every fun op => op.weight = 1 := by
  induction h with
  | nil i => trivial
  | step found acts next ih => exact ⟨(Kind.unit_op acts).2, ih⟩
  | loop opens closes inside next ihInside ihNext => exact ⟨ihInside, ihNext⟩

/-- Instructions read as a block that touches only the current cell. -/
theorem Linked.unit {is : Array Instruction} {i stop : Nat} {b : Block} (h : Linked is i stop b) :
    b.Within 0 ∧ i + b.weight ≤ stop := by
  induction h with
  | nil i => exact ⟨trivial, Nat.le_refl _⟩
  | step found acts next ih =>
    obtain ⟨hwithin, hweight⟩ := ih
    obtain ⟨hop, hone⟩ := Kind.unit_op acts
    refine ⟨⟨hop, hwithin⟩, ?_⟩
    simp only [Block.weight]
    omega
  | loop opens closes inside next ihInside ihNext =>
    refine ⟨⟨ihInside.1, ihNext.1⟩, ?_⟩
    have hle := next.le
    simp only [Block.weight]
    omega

namespace Program

/-- A program has no more instructions than its source has bytes. -/
theorem size_parse {source : Source} {p : Program} (h : parse source = .ok p) :
    p.instructions.size ≤ source.bytes.length := by
  have hcount := congrArg List.length (sites_parse h)
  have hfilter := List.length_filter_le (fun x => Kind.isLetter x.1) source.bytes.zipIdx
  simp only [Kind.sites, List.length_map, Array.length_toList] at hcount
  rw [hcount]
  simpa using hfilter

/-- Every number in the optimized block of a source fits in an instruction, and the block has no
more entries than the source has bytes. -/
theorem optimize_parse_fits {source : Source} {p : Program} (h : parse source = .ok p)
    (hlen : source.bytes.length < 2 ^ 63) (passes : PassSet) :
    (p.block.optimize passes).Legal ∧
      (p.block.optimize passes).count ≤ source.bytes.length := by
  obtain ⟨hwithin, hweight⟩ := (linked_of_parse h).unit
  have hsize := size_parse h
  obtain ⟨hlegal, hcount⟩ := Block.optimize_fits hwithin (by omega) passes
  exact ⟨hlegal, by omega⟩

end Program

end TapeLang
