import TapeLang.Proofs.Legality
import TapeLang.Proofs.Transparency

namespace TapeLang

/-- The delta of a byte is not reduced further. -/
theorem byteDelta_eq {delta : Int64} (h : -128 ≤ delta.toInt ∧ delta.toInt ≤ 127) :
    byteDelta delta = delta := by
  have hrange := toInt_byteDelta delta
  have hsame : (byteDelta delta).toInt % 256 = delta.toInt % 256 := by
    rw [← Machine.lowByte_toNat, ← Machine.lowByte_toNat, Machine.lowByte_byteDelta]
  rw [← Int64.toInt_inj]
  omega

namespace Op

/-- The delta of an addition is that of a byte already. -/
def Reduced : Op → Prop
  | add delta _ => byteDelta delta = delta
  | _ => True

/-- A move is by something, the delta of a cell is that of a byte, and moves and offsets fit. -/
def Settled (fits : Int64 → Prop) : Op → Prop
  | move delta => delta ≠ 0 ∧ fits delta
  | add delta offset => (-128 ≤ delta.toInt ∧ delta.toInt ≤ 127) ∧ fits offset
  | clear offset => fits offset
  | put offset => fits offset
  | get offset => fits offset
  | unknown => False

/-- Only the offset of a step tells whether its offset fits. -/
theorem settled_offset {fits : Int64 → Prop} {op : Op} {offset : Int64}
    (ho : op.offset? = some offset) (hop : (op.withOffset 0).Settled fits) (h : fits offset) :
    op.Settled fits := by
  cases op with
  | move _ | unknown => cases ho
  | add delta _ =>
    cases ho
    exact ⟨hop.1, h⟩
  | clear _ | put _ | get _ =>
    cases ho
    exact h

end Op

namespace Block

def Settled (fits : Int64 → Prop) : Block → Prop := Every (Op.Settled fits)

theorem Settled.carried {b : Block} (h : b.Settled Short) (hlegal : b.Legal) :
    b.Settled Carried := by
  induction b with
  | nil => trivial
  | loop body rest ihBody ihRest => exact ⟨ihBody h.1 hlegal.1, ihRest h.2 hlegal.2⟩
  | step op rest ih =>
    refine ⟨?_, ih h.2 hlegal.2⟩
    cases op with
    | move delta => exact ⟨h.1.1, hlegal.1⟩
    | add delta offset => exact ⟨h.1.1, hlegal.1.2⟩
    | clear offset => exact hlegal.1
    | put offset => exact hlegal.1
    | get offset => exact hlegal.1
    | unknown => exact hlegal.1

section legalize

variable {rest : Block}

/-- A short move is not split. -/
theorem splitMove_short {delta : Int64} (h : Short delta) (rest : Block) :
    splitMove delta rest = moved delta rest := by
  have hnone : fullMoves delta = 0 := by
    rcases h with h | rfl
    · unfold Carried at h
      rw [fullMoves_eq (by omega)]
      omega
    · rfl
  unfold splitMove
  dsimp only
  rw [hnone, repeatMove, show Int64.ofNat 0 = 0 from rfl, Int64.zero_mul, Int64.sub_zero]

theorem settled_moved {delta : Int64} (h : Short delta) (hrest : rest.Settled Short) :
    (moved delta rest).Settled Short := by
  unfold moved
  split
  · exact hrest
  · rename_i hne
    exact ⟨⟨hne, h⟩, hrest⟩

theorem settled_repeatMove {delta : Int64} (hdelta : (Op.move delta).Settled Short)
    (hrest : rest.Settled Short) (n : Nat) : (repeatMove delta rest n).Settled Short := by
  induction n with
  | zero => exact hrest
  | succ n ih => exact ⟨hdelta, ih⟩

theorem settled_splitMove (delta : Int64) (hrest : rest.Settled Short) :
    (splitMove delta rest).Settled Short := by
  by_cases hmin : delta = Int64.minValue
  · rw [splitMove_short (.inr hmin)]
    exact settled_moved (.inr hmin) hrest
  · obtain ⟨full, left, n, heq, -, hfull, hleft, -⟩ := splitMove_eq (natAbs_lt hmin)
    rw [heq]
    refine settled_repeatMove ⟨?_, .inl (Nat.le_of_eq hfull)⟩ (settled_moved (.inl hleft) hrest) n
    rintro rfl
    cases hfull

/-- A step is settled wherever its cell is, by going there and coming back if it is far. -/
theorem settled_legalStep {op : Op} (hop : (op.withOffset 0).Settled Short)
    (hrest : rest.Settled Short) : (legalStep op rest).Settled Short := by
  unfold legalStep
  split
  · rename_i ho
    refine ⟨?_, hrest⟩
    cases op with
    | move | unknown => exact hop
    | add | clear | put | get => cases ho
  · rename_i offset ho
    split
    · exact settled_splitMove _ ⟨hop, settled_splitMove _ hrest⟩
    · rename_i hshort
      exact ⟨Op.settled_offset ho hop (short_iff.mpr hshort), hrest⟩

theorem settled_legalize {b : Block} (hb : b.Known) : b.legalize.Settled Short := by
  have hzero : Short 0 := .inl (Nat.zero_le _)
  induction b with
  | nil => trivial
  | loop body rest ihBody ihRest => exact ⟨ihBody hb.1, ihRest hb.2⟩
  | step op rest ih =>
    have hrest := ih hb.2
    cases op with
    | move delta => exact settled_splitMove delta hrest
    | add delta offset => exact settled_legalStep ⟨toInt_byteDelta delta, hzero⟩ hrest
    | clear offset => exact settled_legalStep hzero hrest
    | put offset => exact settled_legalStep hzero hrest
    | get offset => exact settled_legalStep hzero hrest
    | unknown => exact absurd rfl hb.1

/-- A step with a reduced delta and a short offset is left as it is. -/
theorem legalize_touching (op : Op) {offset : Int64} (ho : op.offset? = some offset)
    (hreduced : op.Reduced) (hshort : Short offset) (rest : Block) :
    (step op rest).legalize = step op rest.legalize := by
  have hkept : legalStep op rest.legalize = step op rest.legalize := by
    apply legalStep_short
    intro offset' ho'
    rw [ho] at ho'
    cases ho'
    exact hshort
  cases op with
  | move _ | unknown => cases ho
  | add delta _ =>
    rw [legalize, show byteDelta delta = delta from hreduced]
    exact hkept
  | clear _ | put _ | get _ => exact hkept

/-- A block with settled numbers is not split again. -/
theorem legalize_settled {b : Block} (hb : b.Settled Short) : b.legalize = b := by
  induction b with
  | nil => rfl
  | loop body rest ihBody ihRest => rw [legalize, ihBody hb.1, ihRest hb.2]
  | step op rest ih =>
    obtain ⟨hop, hrest⟩ := hb
    cases op with
    | move delta => rw [legalize, splitMove_short hop.2, moved, if_neg hop.1, ih hrest]
    | add delta offset =>
      rw [legalize_touching (.add delta offset) rfl (byteDelta_eq hop.1) hop.2, ih hrest]
    | clear offset => rw [legalize_touching (.clear offset) rfl trivial hop, ih hrest]
    | put offset => rw [legalize_touching (.put offset) rfl trivial hop, ih hrest]
    | get offset => rw [legalize_touching (.get offset) rfl trivial hop, ih hrest]
    | unknown => exact hop.elim

end legalize

theorem known_foldOffsets {b : Block} (hb : b.Known) (pending : Int64) :
    (b.foldOffsets pending).Known := by
  refine known_iff.mpr (every_foldOffsets (fun _ => nofun) ?_ (known_iff.mp hb) pending)
  intro op offset hop
  cases op with
  | unknown => exact hop
  | move | add | clear | put | get => exact nofun

/-- What is left to split is known, whatever passes have run. -/
theorem settled_optimize {b : Block} (hb : b.Known) (passes : PassSet) :
    (b.optimize passes).Settled Short := by
  have hprepared := known_prepared hb passes
  exact settled_legalize (applyIf_rule (P := Known) _ hprepared (known_foldOffsets hprepared 0))

/-- Whatever passes are chosen, in the optimized block of any block without unknown steps every move
is by something, every delta of a cell is in [-128, 127], and moves and offsets are in
[-4095, 4095] or the lowest word. In the optimized block of a source they are in [-4095, 4095]. -/
theorem optimize_settled (passes : PassSet) :
    (∀ b : Block, b.Known → (b.optimize passes).Settled Short) ∧
    ∀ (source : Source) (p : Program), Program.parse source = .ok p →
      source.bytes.length < 2 ^ 63 → (p.block.optimize passes).Settled Carried := by
  refine ⟨fun b hb => settled_optimize hb passes, fun source p hp hlen => ?_⟩
  have hknown : p.block.Known := (Program.linked_of_parse hp).unit.1.known
  exact (settled_optimize hknown passes).carried (Program.optimize_parse_fits hp hlen passes).1

/-- Moves by the lowest word, adds more than a byte far away, and moves far inside a loop. -/
def straying : Block :=
  step (.move Int64.minValue) (step (.add 300 5000) (loop (step (.move (-9000)) nil) nil))

theorem optimize_settled_straying :
    (straying.Known ∧ (straying.optimize .all).Settled Short) ∧
    ∃ p, Program.parse ⟨[], text ">>[->+<]<."⟩ = .ok p ∧
      (p.block.optimize .all).Settled Carried := by
  have hknown : straying.Known := by simp [straying, Known]
  obtain ⟨p, hp⟩ : ∃ p, Program.parse ⟨[], text ">>[->+<]<."⟩ = .ok p := ⟨_, rfl⟩
  obtain ⟨hblock, hsource⟩ := optimize_settled .all
  exact ⟨⟨hknown, hblock straying hknown⟩, p, hp, hsource _ p hp (by decide)⟩

end Block

end TapeLang
