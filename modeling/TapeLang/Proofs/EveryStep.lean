import TapeLang.Optimize

namespace TapeLang.Block

/-- Every step satisfies `P`, inside loops too. -/
def Every (P : Op → Prop) : Block → Prop
  | nil => True
  | step op rest => P op ∧ rest.Every P
  | loop body rest => body.Every P ∧ rest.Every P

@[elab_as_elim]
theorem touchingRec {motive : Block → Prop} (nil : motive nil)
    (loop : ∀ body rest, motive body → motive rest → motive (loop body rest))
    (move : ∀ delta rest, motive rest → motive (step (.move delta) rest))
    (unknown : ∀ rest, motive rest → motive (step .unknown rest))
    (touch : ∀ op offset rest, op.offset? = some offset → motive rest → motive (step op rest))
    (b : Block) : motive b := by
  induction b with
  | nil => exact nil
  | loop body rest ihBody ihRest => exact loop body rest ihBody ihRest
  | step op rest ih =>
    cases op with
    | move delta => exact move delta rest ih
    | unknown => exact unknown rest ih
    | add | clear | put | get => exact touch _ _ rest rfl ih

/-- A step that touches a cell takes the pending moves into its offset or lets them go first. -/
theorem foldOffsets_touching {op : Op} {offset : Int64} (h : op.offset? = some offset)
    (rest : Block) (pending : Int64) :
    (step op rest).foldOffsets pending =
      if (pending + offset).abs > maxImmediate then
        moved pending (step (op.withOffset offset) (rest.foldOffsets 0))
      else step (op.withOffset (pending + offset)) (rest.foldOffsets pending) := by
  cases op <;> cases h <;> rfl

theorem applyIf_rule {P : Block → Prop} (on : Bool) {f : Block → Block} {b : Block} (hb : P b)
    (hf : P (f b)) : P (applyIf on f b) := by
  cases on
  · exact hb
  · exact hf

section every

variable {P Q : Op → Prop} {b : Block}

theorem Every.imp (hb : b.Every P) (h : ∀ op, P op → Q op) : b.Every Q := by
  induction b with
  | nil => trivial
  | step op rest ih => exact ⟨h op hb.1, ih hb.2⟩
  | loop body rest ihBody ihRest => exact ⟨ihBody hb.1, ihRest hb.2⟩

theorem known_iff : b.Known ↔ b.Every (· ≠ .unknown) := by
  induction b with
  | nil => exact Iff.rfl
  | step op rest ih => exact and_congr Iff.rfl ih
  | loop body rest ihBody ihRest => exact and_congr ihBody ihRest

theorem every_moved (hmove : ∀ delta, P (.move delta)) (hb : b.Every P) (delta : Int64) :
    (moved delta b).Every P := by
  unfold moved
  split
  · exact hb
  · exact ⟨hmove delta, hb⟩

theorem every_joinMove (hmove : ∀ delta, P (.move delta)) (hb : b.Every P) (delta : Int64) :
    (b.joinMove delta).Every P := by
  unfold joinMove
  split
  · split
    · exact hb.2
    · exact ⟨hmove _, hb.2⟩
  · split
    · exact hb
    · exact ⟨hmove _, hb⟩

theorem every_joinAdd {offset : Int64} (hadd : ∀ delta, P (.add (byteDelta delta) offset))
    (hb : b.Every P) (delta : Int64) : (b.joinAdd delta offset).Every P := by
  unfold joinAdd
  split
  · split
    · exact ⟨hadd _, hb.2⟩
    · exact ⟨hadd _, hb⟩
  · exact ⟨hadd _, hb⟩

theorem every_coalesce (hmove : ∀ delta, P (.move delta))
    (hadd : ∀ delta delta' offset, P (.add delta offset) → P (.add (byteDelta delta') offset))
    (hb : b.Every P) : b.coalesce.Every P := by
  induction b with
  | nil => trivial
  | loop body rest ihBody ihRest => exact ⟨ihBody hb.1, ihRest hb.2⟩
  | step op rest ih =>
    have hrest := ih hb.2
    cases op with
    | move delta => exact every_joinMove hmove hrest delta
    | add delta offset => exact every_joinAdd (fun d => hadd delta d offset hb.1) hrest delta
    | clear | put | get | unknown => exact ⟨hb.1, hrest⟩

theorem every_zeroIdiom (hclear : P (.clear 0)) (hb : b.Every P) : b.zeroIdiom.Every P := by
  induction b with
  | nil => trivial
  | step op rest ih => exact ⟨hb.1, ih hb.2⟩
  | loop body rest ihBody ihRest =>
    unfold zeroIdiom
    split
    · exact ⟨hclear, ihRest hb.2⟩
    · exact ⟨ihBody hb.1, ihRest hb.2⟩

theorem every_foldOffsets (hmove : ∀ delta, P (.move delta))
    (hoffset : ∀ op offset, P op → P (op.withOffset offset)) (hb : b.Every P) (pending : Int64) :
    (b.foldOffsets pending).Every P := by
  induction b using touchingRec generalizing pending with
  | nil => exact every_moved (b := nil) hmove trivial pending
  | loop body rest ihBody ihRest =>
    exact every_moved (b := loop _ _) hmove ⟨ihBody hb.1 0, ihRest hb.2 0⟩ pending
  | move delta rest ih => exact ih hb.2 (pending + delta)
  | unknown rest ih => exact ih hb.2 pending
  | touch op offset rest ho ih =>
    rw [foldOffsets_touching ho]
    split
    · exact every_moved (b := step _ _) hmove ⟨hoffset op _ hb.1, ih hb.2 0⟩ pending
    · exact ⟨hoffset op _ hb.1, ih hb.2 pending⟩

end every

end TapeLang.Block
