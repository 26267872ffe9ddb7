import TapeLang.Proofs.EveryStep

namespace TapeLang

/-- The first block may stand for the second: moves add up and pass over steps that touch a cell,
and additions to one cell add up. -/
structure RewriteOrder (R : Block → Block → Prop) : Prop where
  refl : ∀ b, R b b
  trans : ∀ {b b' b''}, R b b' → R b' b'' → R b b''
  step : ∀ op {rest rest'}, R rest rest' → R (.step op rest) (.step op rest')
  loop : ∀ {body body' rest rest'}, R body body' → R rest rest' →
    R (.loop body rest) (.loop body' rest')
  move_zero : ∀ rest, R rest (.step (.move 0) rest)
  zero_move : ∀ rest, R (.step (.move 0) rest) rest
  move_move : ∀ delta delta' rest,
    R (.step (.move (delta + delta')) rest) (.step (.move delta) (.step (.move delta') rest))
  move_step : ∀ {op : Op} {offset}, op.offset? = some offset → ∀ delta rest,
    R (.step (op.withOffset (delta + offset)) (.step (.move delta) rest))
      (.step (.move delta) (.step op rest))
  add_byteDelta : ∀ delta offset rest,
    R (.step (.add (byteDelta delta) offset) rest) (.step (.add delta offset) rest)
  add_add : ∀ delta delta' offset rest,
    R (.step (.add (delta + delta') offset) rest)
      (.step (.add delta offset) (.step (.add delta' offset) rest))

/-- A step that clears a cell may stand for a loop that does. -/
def ClearsLoops (R : Block → Block → Prop) : Prop :=
  ∀ delta, delta % 2 ≠ 0 → ∀ rest,
    R (.step (.clear 0) rest) (.loop (.step (.add delta 0) .nil) rest)

theorem Op.withOffset_self {op : Op} {offset : Int64} (h : op.offset? = some offset) :
    op.withOffset offset = op := by
  cases op <;> cases h <;> rfl

/-- One more piece of a move that is made in equal pieces. -/
theorem ofNat_succ_mul (n : Nat) (delta : Int64) :
    Int64.ofNat (n + 1) * delta = delta + Int64.ofNat n * delta := by
  rw [Int64.ofNat_add, Int64.add_mul, Int64.add_comm]
  simp

namespace Block

/-- The block after the chosen passes, up to the one that folds offsets. -/
def prepared (passes : PassSet) (b : Block) : Block :=
  applyIf (passes.contains .zeroIdiom) zeroIdiom <|
  applyIf (passes.contains .coalesce) coalesce b

/-- The block after the chosen passes, before the split into legal steps. -/
def rewritten (passes : PassSet) (b : Block) : Block :=
  applyIf (passes.contains .offsetFold) (foldOffsets 0) (b.prepared passes)

theorem optimize_eq (passes : PassSet) (b : Block) :
    b.optimize passes = (b.rewritten passes).legalize := rfl

theorem known_coalesce {b : Block} (hb : b.Known) : b.coalesce.Known :=
  known_iff.mpr (every_coalesce nofun nofun (known_iff.mp hb))

theorem known_zeroIdiom {b : Block} (hb : b.Known) : b.zeroIdiom.Known :=
  known_iff.mpr (every_zeroIdiom nofun (known_iff.mp hb))

theorem known_prepared {b : Block} (hb : b.Known) (passes : PassSet) :
    (b.prepared passes).Known := by
  have hmerged : (applyIf (passes.contains .coalesce) coalesce b).Known :=
    applyIf_rule (P := Known) _ hb (known_coalesce hb)
  exact applyIf_rule (P := Known) _ hmerged (known_zeroIdiom hmerged)

theorem isClearing_iff {b : Block} :
    b.isClearing = true ↔ ∃ delta, b = step (.add delta 0) nil ∧ delta % 2 ≠ 0 := by
  refine ⟨fun h => ?_, ?_⟩
  · unfold isClearing at h
    split at h
    · rename_i delta offset
      simp only [Bool.and_eq_true, beq_iff_eq, bne_iff_ne] at h
      exact ⟨delta, by rw [h.1], h.2⟩
    · cases h
  · rintro ⟨delta, rfl, hodd⟩
    simpa [isClearing] using hodd

end Block

namespace RewriteOrder

variable {R : Block → Block → Prop} (h : RewriteOrder R)

include h

theorem moved (delta : Int64) (rest : Block) :
    R (Block.moved delta rest) (.step (.move delta) rest) := by
  unfold Block.moved
  split
  · rename_i hzero
    subst hzero
    exact h.move_zero rest
  · exact h.refl _

theorem joinMove (delta : Int64) (b : Block) : R (b.joinMove delta) (.step (.move delta) b) := by
  unfold Block.joinMove
  split
  · rename_i next rest
    have hsum := h.move_move delta next rest
    split
    · rename_i hzero
      rw [hzero] at hsum
      exact h.trans (h.move_zero rest) hsum
    · exact hsum
  · exact h.moved delta b

theorem joinAdd (delta offset : Int64) (b : Block) :
    R (b.joinAdd delta offset) (.step (.add delta offset) b) := by
  unfold Block.joinAdd
  split
  · rename_i next offset' rest
    split
    · rename_i hsame
      subst hsame
      exact h.trans (h.add_byteDelta _ _ _) (h.add_add delta next offset' rest)
    · exact h.add_byteDelta _ _ _
  · exact h.add_byteDelta _ _ _

theorem join (op : Op) (b : Block) : R (b.join op) (.step op b) := by
  cases op with
  | move delta => exact h.joinMove delta b
  | add delta offset => exact h.joinAdd delta offset b
  | clear | put | get | unknown => exact h.refl _

theorem coalesce (b : Block) : R b.coalesce b := by
  induction b with
  | nil => exact h.refl _
  | step op rest ih => exact h.trans (h.join op rest.coalesce) (h.step op ih)
  | loop body rest ihBody ihRest => exact h.loop ihBody ihRest

theorem zeroIdiom (hclears : ClearsLoops R) (b : Block) : R b.zeroIdiom b := by
  induction b with
  | nil => exact h.refl _
  | step op rest ih => exact h.step op ih
  | loop body rest ihBody ihRest =>
    have hloop := h.loop ihBody ihRest
    rw [Block.zeroIdiom]
    split
    · rename_i hclearing
      obtain ⟨delta, hbody, hodd⟩ := Block.isClearing_iff.mp hclearing
      rw [hbody] at hloop
      exact h.trans (hclears delta hodd _) hloop
    · exact hloop

/-- A folded block stands for the block after the moves that are still to be made. -/
theorem foldOffsets {b : Block} (hb : b.Known) (pending : Int64) :
    R (b.foldOffsets pending) (.step (.move pending) b) := by
  induction b using Block.touchingRec generalizing pending with
  | nil => exact h.moved pending .nil
  | loop body rest ihBody ihRest =>
    have hbody := h.trans (ihBody hb.1 0) (h.zero_move body)
    have hrest := h.trans (ihRest hb.2 0) (h.zero_move rest)
    exact h.trans (h.moved pending _) (h.step _ (h.loop hbody hrest))
  | move delta rest ih => exact h.trans (ih hb.2 (pending + delta)) (h.move_move pending delta rest)
  | unknown rest ih => exact absurd rfl hb.1
  | touch op offset rest ho ih =>
    rw [Block.foldOffsets_touching ho]
    split
    · have hrest := h.trans (ih hb.2 0) (h.zero_move rest)
      rw [Op.withOffset_self ho]
      exact h.trans (h.moved pending _) (h.step _ (h.step op hrest))
    · exact h.trans (h.step _ (ih hb.2 pending)) (h.move_step ho pending rest)

theorem applyIf {on : Bool} {f : Block → Block} {b : Block} (hf : on = true → R (f b) b) :
    R (Block.applyIf on f b) b := by
  cases on with
  | true => exact hf rfl
  | false => exact h.refl b

/-- What the passes make of a block may stand for it. -/
theorem rewritten {passes : PassSet} (hclears : passes.contains .zeroIdiom = true → ClearsLoops R)
    {b : Block} (hb : b.Known) : R (b.rewritten passes) b := by
  have hmerged : R (Block.applyIf (passes.contains .coalesce) Block.coalesce b) b :=
    h.applyIf fun _ => h.coalesce b
  have hprepared : R (b.prepared passes) b :=
    h.trans (h.applyIf fun hon => h.zeroIdiom (hclears hon) _) hmerged
  have hfolded : R (b.rewritten passes) (b.prepared passes) :=
    h.applyIf fun _ => h.trans (h.foldOffsets (Block.known_prepared hb passes) 0) (h.zero_move _)
  exact h.trans hfolded hprepared

end RewriteOrder

end TapeLang
