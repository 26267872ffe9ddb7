import TapeLang.Proofs.Legality

namespace TapeLang

namespace Block

theorem depthOrder : RewriteOrder fun b b' => b.depth = b'.depth where
  refl b := rfl
  trans := Eq.trans
  step op _ _ hrest := hrest
  loop hbody hrest := by simp only [depth, hbody, hrest]
  move_zero rest := rfl
  zero_move rest := rfl
  move_move delta delta' rest := rfl
  move_step ho delta rest := rfl
  add_byteDelta delta offset rest := rfl
  add_add delta delta' offset rest := rfl

/-- A loop that goes away holds no other loop. -/
theorem depth_of_clearing {b : Block} (h : b.zeroIdiom.isClearing = true) : b.depth = 0 := by
  obtain ⟨delta, hb, -⟩ := isClearing_iff.mp h
  cases b with
  | nil => rfl
  | step op rest =>
    cases rest with
    | nil => rfl
    | step op' rest => simp [zeroIdiom] at hb
    | loop body rest =>
      simp only [zeroIdiom, step.injEq] at hb
      split at hb
      · simp at hb
      · simp at hb
  | loop body rest =>
    simp only [zeroIdiom] at hb
    split at hb
    · simp at hb
    · simp at hb

theorem depth_zeroIdiom (b : Block) :
    b.zeroIdiom.depth ≤ b.depth ∧ b.depth ≤ b.zeroIdiom.depth + 1 := by
  induction b with
  | nil => simp [zeroIdiom, depth]
  | step op rest ih => exact ih
  | loop body rest ihBody ihRest =>
    rw [zeroIdiom]
    split
    · rename_i hclearing
      have hflat := depth_of_clearing hclearing
      simp only [depth]
      omega
    · simp only [depth]
      omega

theorem depth_moved (delta : Int64) (rest : Block) : (moved delta rest).depth = rest.depth :=
  depthOrder.moved delta rest

theorem depth_repeatMove (delta : Int64) (rest : Block) (n : Nat) :
    (repeatMove delta rest n).depth = rest.depth := by
  induction n with
  | zero => rfl
  | succ n ih => exact ih

theorem depth_splitMove (delta : Int64) (rest : Block) :
    (splitMove delta rest).depth = rest.depth := by
  unfold splitMove
  dsimp only
  rw [depth_repeatMove, depth_moved]

theorem depth_legalStep (op : Op) (rest : Block) : (legalStep op rest).depth = rest.depth := by
  unfold legalStep
  split
  · rfl
  · split
    · rw [depth_splitMove]
      exact depth_splitMove _ rest
    · rfl

theorem depth_legalize (b : Block) : b.legalize.depth = b.depth := by
  induction b with
  | nil => rfl
  | loop body rest ihBody ihRest => simp only [legalize, depth, ihBody, ihRest]
  | step op rest ih =>
    cases op with
    | move delta => exact (depth_splitMove delta _).trans ih
    | add delta offset => exact (depth_legalStep _ _).trans ih
    | clear | put | get | unknown => exact (depth_legalStep _ _).trans ih

theorem depth_rewritten {b : Block} (hb : b.Known) (passes : PassSet) :
    (b.rewritten passes).depth ≤ b.depth ∧ b.depth ≤ (b.rewritten passes).depth + 1 := by
  let merged := applyIf (passes.contains .coalesce) coalesce b
  have hmerged : merged.depth = b.depth := depthOrder.applyIf fun _ => depthOrder.coalesce b
  have hfolded : (b.rewritten passes).depth = (b.prepared passes).depth :=
    depthOrder.applyIf fun _ => depthOrder.foldOffsets (known_prepared hb passes) 0
  have hcleared : (b.prepared passes).depth ≤ merged.depth ∧
      merged.depth ≤ (b.prepared passes).depth + 1 := by
    apply applyIf_rule (P := fun c => c.depth ≤ merged.depth ∧ merged.depth ≤ c.depth + 1)
    · exact ⟨Nat.le_refl _, Nat.le_succ _⟩
    · exact depth_zeroIdiom merged
  omega

theorem weight_eq_count {b : Block} (hb : b.Every fun op => op.weight = 1) :
    b.weight = b.count := by
  induction b with
  | nil => rfl
  | step op rest ih =>
    rw [weight, count, hb.1, ih hb.2, Nat.add_comm]
  | loop body rest ihBody ihRest =>
    rw [weight, count, ihBody hb.1, ihRest hb.2]
    omega

/-- To optimize the block of a source adds no entry. Its loops are nested as deep as before or one
level less, and as deep as before if clearing loops are kept. -/
theorem optimize_shrinks {source : Source} {p : Program} (hp : Program.parse source = .ok p)
    (hlen : source.bytes.length < 2 ^ 63) (passes : PassSet) :
    (p.block.optimize passes).count ≤ p.block.count ∧
      p.block.depth ≤ (p.block.optimize passes).depth + 1 ∧
      (p.block.optimize passes).depth ≤ p.block.depth ∧
      (passes.contains .zeroIdiom = false →
        (p.block.optimize passes).depth = p.block.depth) := by
  have hlinked := Program.linked_of_parse hp
  obtain ⟨hwithin, hweight⟩ := hlinked.unit
  have hsize := Program.size_parse hp
  obtain ⟨-, hcount⟩ := optimize_fits hwithin (by omega) passes
  rw [weight_eq_count hlinked.units] at hcount
  obtain ⟨hupper, hlower⟩ := depth_rewritten hwithin.known passes
  rw [optimize_eq, depth_legalize]
  refine ⟨hcount, hlower, hupper, ?_⟩
  intro hkept
  apply depthOrder.rewritten _ hwithin.known
  intro hclears
  rw [hkept] at hclears
  cases hclears

/-- The inner loop only clears its cell: it goes away when clearing loops do, and stays if not. -/
theorem optimize_shrinks_nested :
    ∃ p, Program.parse ⟨[], text "+[>[-]<]>>"⟩ = .ok p ∧
      (p.block.optimize .all).count ≤ p.block.count ∧
      p.block.depth ≤ (p.block.optimize .all).depth + 1 ∧
      (p.block.optimize .none).depth = p.block.depth := by
  obtain ⟨p, hp⟩ : ∃ p, Program.parse ⟨[], text "+[>[-]<]>>"⟩ = .ok p := ⟨_, rfl⟩
  obtain ⟨hcount, hdepth, -⟩ := optimize_shrinks hp (by decide) .all
  obtain ⟨-, -, -, hkept⟩ := optimize_shrinks hp (by decide) .none
  exact ⟨p, hp, hcount, hdepth, hkept rfl⟩

end Block

end TapeLang
