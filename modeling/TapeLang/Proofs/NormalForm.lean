import TapeLang.Proofs.Immediates

namespace TapeLang

namespace Op

/-- The step does not become one with the step behind it. -/
def Apart (next : Option Op) : Op → Prop
  | move delta => delta ≠ 0 ∧ ∀ delta', next ≠ some (move delta')
  | add _ offset => ∀ delta', next ≠ some (add delta' offset)
  | _ => True

theorem Apart.clear {next : Option Op} {op : Op} (h : op.Apart next) (offset : Int64) :
    op.Apart (some (.clear offset)) := by
  cases op with
  | move _ => exact ⟨h.1, nofun⟩
  | add _ _ => exact nofun
  | clear | put | get | unknown => trivial

theorem Within.here {op : Op} {offset : Int64} (h : op.Within 0) (ho : op.offset? = some offset) :
    offset = 0 := by
  have hzero := h.2 offset ho
  rw [← Int64.toInt_inj, Int64.toInt_zero]
  omega

theorem withOffset_withOffset (op : Op) (offset offset' : Int64) :
    (op.withOffset offset).withOffset offset' = op.withOffset offset' := by
  cases op <;> rfl

end Op

namespace Block

/-- The step at the front. -/
def first? : Block → Option Op
  | step op _ => some op
  | _ => none

/-- There is no move at the front. -/
def Still (b : Block) : Prop := ∀ delta, b.first? ≠ some (.move delta)

/-- No step becomes one with the step behind it. -/
def Merged : Block → Prop
  | nil => True
  | step op rest => op.Apart rest.first? ∧ rest.Merged
  | loop body rest => body.Merged ∧ rest.Merged

/-- No loop only clears its cell. -/
def Cleared : Block → Prop
  | nil => True
  | step _ rest => rest.Cleared
  | loop body rest => body.isClearing = false ∧ body.Cleared ∧ rest.Cleared

section sum

variable {β : Type} {f : Int64 → Block → β}
  (h : ∀ pending delta rest, f pending (step (.move delta) rest) = f (pending + delta) rest)

include h

theorem moved_sum (pending delta : Int64) (rest : Block) :
    f pending (moved delta rest) = f (pending + delta) rest := by
  unfold moved
  split
  · rename_i hzero
    rw [hzero, Int64.add_zero]
  · exact h pending delta rest

theorem repeatMove_sum (pending delta : Int64) (rest : Block) (n : Nat) :
    f pending (repeatMove delta rest n) = f (pending + Int64.ofNat n * delta) rest := by
  induction n generalizing pending with
  | zero => rw [repeatMove, show Int64.ofNat 0 = 0 from rfl, Int64.zero_mul, Int64.add_zero]
  | succ n ih => rw [repeatMove, h, ih, ofNat_succ_mul, Int64.add_assoc]

/-- Where moves are only added up, a split move counts as the move that it was. -/
theorem splitMove_sum (pending delta : Int64) (rest : Block) :
    f pending (splitMove delta rest) = f (pending + delta) rest := by
  unfold splitMove
  dsimp only
  rw [repeatMove_sum h, moved_sum h, Int64.add_assoc, Int64.add_comm (_ * _), Int64.sub_add_cancel]

end sum

section merge

variable {b : Block}

theorem joinMove_moved (hb : b.Still) (delta delta' : Int64) :
    (moved delta' b).joinMove delta = moved (delta + delta') b := by
  unfold moved
  split
  · rename_i hzero
    rw [hzero, Int64.add_zero]
    unfold joinMove
    split
    · exact absurd rfl (hb _)
    · rfl
  · rfl

theorem merged_moved (hb : b.Merged) (hstill : b.Still) (delta : Int64) :
    (moved delta b).Merged := by
  unfold moved
  split
  · exact hb
  · rename_i hne
    exact ⟨⟨hne, hstill⟩, hb⟩

/-- A merged block has at most one move at its front. -/
theorem Merged.front (hb : b.Merged) :
    ∃ delta rest, b = moved delta rest ∧ rest.Still ∧ rest.Merged := by
  by_cases hstill : b.Still
  · exact ⟨0, b, rfl, hstill, hb⟩
  · cases b with
    | nil | loop => exact absurd nofun hstill
    | step op rest =>
      cases op with
      | move delta => exact ⟨delta, rest, (if_neg hb.1.1).symm, hb.1.2, hb.2⟩
      | add | clear | put | get | unknown => exact absurd nofun hstill

theorem joinMove_zero (hb : b.Merged) : b.joinMove 0 = b := by
  obtain ⟨delta, rest, rfl, hstill, -⟩ := hb.front
  rw [joinMove_moved hstill, Int64.zero_add]

theorem joinMove_joinMove (hb : b.Merged) (delta delta' : Int64) :
    (b.joinMove delta').joinMove delta = b.joinMove (delta + delta') := by
  obtain ⟨first, rest, rfl, hstill, -⟩ := hb.front
  rw [joinMove_moved hstill, joinMove_moved hstill, joinMove_moved hstill, Int64.add_assoc]

/-- What stands apart from a merged block is put in front of it as it is. -/
theorem join_apart {op : Op} (hop : op.Apart b.first?) (hreduced : op.Reduced) :
    b.join op = step op b := by
  cases op with
  | move delta =>
    have h := joinMove_moved (b := b) hop.2 delta 0
    rw [Int64.add_zero] at h
    exact h.trans (if_neg hop.1)
  | add delta offset =>
    have hdelta : byteDelta delta = delta := hreduced
    simp only [join]
    unfold joinAdd
    split
    · rename_i next offset' rest
      rw [if_neg (fun hsame => hop next (by rw [hsame]; rfl)), hdelta]
    · rw [hdelta]
  | clear | put | get | unknown => rfl

theorem merged_joinMove (hb : b.Merged) (delta : Int64) : (b.joinMove delta).Merged := by
  obtain ⟨delta', rest, rfl, hstill, hrest⟩ := hb.front
  rw [joinMove_moved hstill]
  exact merged_moved hrest hstill _

theorem merged_joinAdd (hb : b.Merged) (delta offset : Int64) :
    (b.joinAdd delta offset).Merged := by
  unfold joinAdd
  split
  · split
    · rename_i hsame
      subst hsame
      exact hb
    · rename_i hne
      refine ⟨?_, hb⟩
      rintro delta' ⟨⟩
      exact hne rfl
  · rename_i hother
    refine ⟨fun delta' hfirst => ?_, hb⟩
    cases b with
    | nil | loop => cases hfirst
    | step op rest =>
      cases hfirst
      exact hother _ _ _ rfl

theorem merged_coalesce (b : Block) : b.coalesce.Merged := by
  induction b with
  | nil => trivial
  | loop body rest ihBody ihRest => exact ⟨ihBody, ihRest⟩
  | step op rest ih =>
    cases op with
    | move delta => exact merged_joinMove ih delta
    | add delta offset => exact merged_joinAdd ih delta offset
    | clear | put | get | unknown => exact ⟨trivial, ih⟩

theorem coalesce_splitMove (delta : Int64) (rest : Block) :
    (splitMove delta rest).coalesce = rest.coalesce.joinMove delta := by
  have h := splitMove_sum (f := fun pending b => b.coalesce.joinMove pending)
    (fun pending delta rest => joinMove_joinMove (merged_coalesce rest) pending delta) 0 delta rest
  rwa [joinMove_zero (merged_coalesce _), Int64.zero_add] at h

/-- Merging undoes the split of a merged block. -/
theorem coalesce_legalize (hb : b.Merged) (hreduced : b.Every Op.Reduced)
    (hwithin : b.Within 4095) : b.legalize.coalesce = b := by
  induction b using touchingRec with
  | nil => rfl
  | loop body rest ihBody ihRest =>
    rw [legalize, coalesce, ihBody hb.1 hreduced.1 hwithin.1, ihRest hb.2 hreduced.2 hwithin.2]
  | move delta rest ih =>
    rw [legalize, coalesce_splitMove, ih hb.2 hreduced.2 hwithin.2]
    exact join_apart hb.1 hreduced.1
  | unknown rest ih => exact absurd rfl hwithin.1.1
  | touch op offset rest ho ih =>
    have hshort : Short offset := .inl (hwithin.1.2 offset ho)
    rw [legalize_touching op ho hreduced.1 hshort, coalesce, ih hb.2 hreduced.2 hwithin.2,
      join_apart hb.1 hreduced.1]

end merge

section clear

variable {b : Block}

theorem cleared_zeroIdiom (b : Block) : b.zeroIdiom.Cleared := by
  induction b with
  | nil => trivial
  | step op rest ih => exact ih
  | loop body rest ihBody ihRest =>
    unfold zeroIdiom
    split
    · exact ihRest
    · rename_i hkept
      exact ⟨Bool.eq_false_iff.mpr hkept, ihBody, ihRest⟩

theorem zeroIdiom_cleared (hb : b.Cleared) : b.zeroIdiom = b := by
  induction b with
  | nil => rfl
  | step op rest ih => rw [zeroIdiom, ih hb]
  | loop body rest ihBody ihRest =>
    rw [zeroIdiom, ihBody hb.2.1, ihRest hb.2.2, if_neg (Bool.eq_false_iff.mp hb.1)]

theorem first_zeroIdiom (b : Block) :
    b.zeroIdiom.first? = b.first? ∨ b.zeroIdiom.first? = some (.clear 0) := by
  cases b with
  | nil | step => exact .inl rfl
  | loop body rest =>
    unfold zeroIdiom
    split
    · exact .inr rfl
    · exact .inl rfl

theorem merged_zeroIdiom (hb : b.Merged) : b.zeroIdiom.Merged := by
  induction b with
  | nil => trivial
  | step op rest ih =>
    refine ⟨?_, ih hb.2⟩
    rcases first_zeroIdiom rest with h | h
    · rw [h]
      exact hb.1
    · rw [h]
      exact hb.1.clear 0
  | loop body rest ihBody ihRest =>
    unfold zeroIdiom
    split
    · exact ⟨trivial, ihRest hb.2⟩
    · exact ⟨ihBody hb.1, ihRest hb.2⟩

end clear

section fold

variable {b : Block}

theorem foldOffsets_moved (delta : Int64) (rest : Block) (pending : Int64) :
    (moved delta rest).foldOffsets pending = rest.foldOffsets (pending + delta) :=
  moved_sum (f := foldOffsets) (fun _ _ _ => rfl) pending delta rest

/-- Folding does not see the split. -/
theorem foldOffsets_legalize (hreduced : b.Every Op.Reduced) (hwithin : b.Within 4095)
    (pending : Int64) : b.legalize.foldOffsets pending = b.foldOffsets pending := by
  induction b using touchingRec generalizing pending with
  | nil => rfl
  | loop body rest ihBody ihRest =>
    rw [legalize, foldOffsets, foldOffsets, ihBody hreduced.1 hwithin.1,
      ihRest hreduced.2 hwithin.2]
  | move delta rest ih =>
    rw [legalize, splitMove_sum (f := foldOffsets) (fun _ _ _ => rfl), ih hreduced.2 hwithin.2]
    rfl
  | unknown rest ih => exact absurd rfl hwithin.1.1
  | touch op offset rest ho ih =>
    have hrest := ih hreduced.2 hwithin.2
    have hshort : Short offset := .inl (hwithin.1.2 offset ho)
    rw [legalize_touching op ho hreduced.1 hshort, foldOffsets_touching ho,
      foldOffsets_touching ho, hrest, hrest]

/-- Moves that were let go before a step are let go there again. -/
theorem foldOffsets_folded (hb : b.Within 0) (pending : Int64) :
    (b.foldOffsets pending).foldOffsets 0 = b.foldOffsets pending := by
  induction b using touchingRec generalizing pending with
  | nil => rw [foldOffsets, foldOffsets_moved, Int64.zero_add, foldOffsets]
  | loop body rest ihBody ihRest =>
    rw [foldOffsets, foldOffsets_moved, Int64.zero_add, foldOffsets, ihBody hb.1, ihRest hb.2]
  | move delta rest ih => exact ih hb.2 (pending + delta)
  | unknown rest ih => exact absurd rfl hb.1.1
  | touch op offset rest ho ih =>
    obtain rfl := hb.1.here ho
    have hoffset (offset : Int64) := (offset_withOffset ho offset).1
    rw [foldOffsets_touching ho]
    split
    · rename_i hfar
      rw [foldOffsets_moved, Int64.zero_add, foldOffsets_touching (hoffset 0), if_pos hfar,
        Op.withOffset_withOffset, ih hb.2]
    · rename_i hnear
      rw [foldOffsets_touching (hoffset _), Int64.zero_add, if_neg hnear,
        Op.withOffset_withOffset, ih hb.2]

theorem within_of_moved {r : Nat} {delta : Int64} (h : (moved delta b).Within r) : b.Within r := by
  unfold moved at h
  split at h
  · exact h
  · exact h.2

/-- Where a folded block adds first, the block did so with no move before, at its own cell. -/
theorem first_foldOffsets (hb : b.Within 0) (hstill : b.Still) {pending delta offset : Int64}
    (h : (b.foldOffsets pending).first? = some (.add delta offset)) :
    offset = pending ∧ b.first? = some (.add delta 0) := by
  have hmoved {c : Block} (h : (moved pending c).first? = some (.add delta offset)) :
      pending = 0 ∧ c.first? = some (.add delta offset) := by
    unfold moved at h
    split at h
    · rename_i hzero
      exact ⟨hzero, h⟩
    · cases h
  cases b using touchingRec with
  | nil => exact nomatch (hmoved h).2
  | loop body rest => exact nomatch (hmoved h).2
  | move delta rest => exact absurd rfl (hstill delta)
  | unknown rest => exact absurd rfl hb.1.1
  | touch op here rest ho =>
    obtain rfl := hb.1.here ho
    rw [foldOffsets_touching ho] at h
    split at h
    · -- A step at its own cell is near, so moves were pending.
      rename_i hfar
      rw [(hmoved h).1] at hfar
      exact absurd hfar (by decide)
    · cases op with
      | add d o =>
        cases ho
        cases h
        exact ⟨Int64.add_zero pending, rfl⟩
      | move | clear | put | get | unknown => cases h

/-- An addition is still apart from the rest when the rest is folded. -/
theorem apart_foldOffsets (hb : b.Merged) (hwithin : b.Within 0) {op : Op}
    (hop : op.Apart b.first?) (ho : op.offset? = some 0) (pending : Int64) :
    (op.withOffset pending).Apart (b.foldOffsets pending).first? := by
  cases op with
  | move | unknown => cases ho
  | clear | put | get => trivial
  | add delta offset =>
    cases ho
    intro delta' hfirst
    obtain ⟨first, rest, rfl, hstill, -⟩ := hb.front
    rw [foldOffsets_moved] at hfirst
    obtain ⟨hsame, hadds⟩ := first_foldOffsets (within_of_moved hwithin) hstill hfirst
    obtain rfl : first = 0 := Int64.left_eq_add.mp hsame
    exact hop delta' hadds

theorem merged_foldOffsets (hb : b.Merged) (hwithin : b.Within 0) (pending : Int64) :
    (b.foldOffsets pending).Merged := by
  induction b using touchingRec generalizing pending with
  | nil => exact merged_moved (b := nil) trivial nofun pending
  | loop body rest ihBody ihRest =>
    exact merged_moved (b := loop _ _) ⟨ihBody hb.1 hwithin.1 0, ihRest hb.2 hwithin.2 0⟩ nofun
      pending
  | move delta rest ih => exact ih hb.2 hwithin.2 (pending + delta)
  | unknown rest ih => exact absurd rfl hwithin.1.1
  | touch op offset rest ho ih =>
    obtain rfl := hwithin.1.here ho
    have hapart := apart_foldOffsets hb.2 hwithin.2 hb.1 ho
    rw [foldOffsets_touching ho]
    split
    · have hstill : (step (op.withOffset 0) (rest.foldOffsets 0)).Still := by
        cases op with
        | move | unknown => cases ho
        | add | clear | put | get => exact nofun
      exact merged_moved (b := step _ _) ⟨hapart 0, ih hb.2 hwithin.2 0⟩ hstill pending
    · rw [Int64.add_zero]
      exact ⟨hapart pending, ih hb.2 hwithin.2 pending⟩

theorem eq_nil_of_foldOffsets (hb : b.Merged) (hwithin : b.Within 0)
    (h : b.foldOffsets 0 = nil) : b = nil := by
  have hmoved {delta : Int64} {c : Block} (h : moved delta c = nil) : c = nil := by
    unfold moved at h
    split at h
    · exact h
    · cases h
  obtain ⟨first, rest, rfl, hstill, -⟩ := hb.front
  rw [foldOffsets_moved, Int64.zero_add] at h
  cases rest using touchingRec with
  | nil => exact h
  | loop body rest => exact nomatch hmoved h
  | move delta rest => exact absurd rfl (hstill delta)
  | unknown rest => exact absurd rfl (within_of_moved hwithin).1.1
  | touch op offset rest ho =>
    rw [foldOffsets_touching ho] at h
    split at h
    · exact nomatch hmoved h
    · cases h

/-- Folding makes no body a clearing one. -/
theorem isClearing_of_foldOffsets (hb : b.Merged) (hwithin : b.Within 0)
    (h : (b.foldOffsets 0).isClearing = true) : b.isClearing = true := by
  obtain ⟨delta, hfold, hodd⟩ := isClearing_iff.mp h
  obtain ⟨first, rest, rfl, hstill, hrest⟩ := hb.front
  rw [foldOffsets_moved, Int64.zero_add] at hfold
  have hfirst : (rest.foldOffsets first).first? = some (.add delta 0) := by
    rw [hfold]
    rfl
  obtain ⟨rfl, hadds⟩ := first_foldOffsets (within_of_moved hwithin) hstill hfirst
  cases rest with
  | nil | loop => cases hadds
  | step op rest =>
    cases hadds
    rw [foldOffsets_touching rfl, if_neg (by decide)] at hfold
    have hnil := eq_nil_of_foldOffsets hrest.2 hwithin.2 (Block.step.inj hfold).2
    subst hnil
    exact isClearing_iff.mpr ⟨delta, rfl, hodd⟩

theorem cleared_moved (hb : b.Cleared) (delta : Int64) : (moved delta b).Cleared := by
  unfold moved
  split <;> exact hb

theorem cleared_foldOffsets (hb : b.Cleared) (hmerged : b.Merged) (hwithin : b.Within 0)
    (pending : Int64) : (b.foldOffsets pending).Cleared := by
  induction b using touchingRec generalizing pending with
  | nil => exact cleared_moved (b := nil) trivial pending
  | loop body rest ihBody ihRest =>
    obtain ⟨hopen, hbody, hrest⟩ := hb
    have hkept : (body.foldOffsets 0).isClearing = false := by
      rw [Bool.eq_false_iff] at hopen ⊢
      exact fun h => hopen (isClearing_of_foldOffsets hmerged.1 hwithin.1 h)
    exact cleared_moved (b := loop _ _) ⟨hkept, ihBody hbody hmerged.1 hwithin.1 0,
      ihRest hrest hmerged.2 hwithin.2 0⟩ pending
  | move delta rest ih => exact ih hb hmerged.2 hwithin.2 (pending + delta)
  | unknown rest ih => exact absurd rfl hwithin.1.1
  | touch op offset rest ho ih =>
    have hrest := ih hb hmerged.2 hwithin.2
    rw [foldOffsets_touching ho]
    split
    · exact cleared_moved (b := step _ _) (hrest 0) pending
    · exact hrest pending

theorem within_folded (hb : b.Within 0) (hw : b.weight < 2 ^ 63) :
    (b.foldOffsets 0).Within 4095 := by
  apply within_foldOffsets hb
  rwa [Int64.toInt_zero, Int.natAbs_zero, Nat.zero_add]

end fold

theorem reduced_foldOffsets {b : Block} (hb : b.Every Op.Reduced) (pending : Int64) :
    (b.foldOffsets pending).Every Op.Reduced := by
  refine every_foldOffsets (fun _ => trivial) (fun op offset hop => ?_) hb pending
  cases op <;> exact hop

theorem Settled.reduced {fits : Int64 → Prop} {b : Block} (hb : b.Settled fits) :
    b.Every Op.Reduced := by
  refine hb.imp fun op hop => ?_
  cases op with
  | add delta offset => exact byteDelta_eq hop.1
  | move | clear | put | get | unknown => trivial

/-- What the passes leave when they merge, before the split. -/
structure Normal (r : Nat) (clears : Bool) (b : Block) : Prop where
  merged : b.Merged
  reduced : b.Every Op.Reduced
  within : b.Within r
  cleared : clears = true → b.Cleared

theorem normal_zeroIdiom {b : Block} (hb : b.Normal 0 false) (on : Bool) :
    (applyIf on zeroIdiom b).Normal 0 on := by
  cases on with
  | false => exact hb
  | true =>
    exact ⟨merged_zeroIdiom hb.merged, every_zeroIdiom trivial hb.reduced,
      within_zeroIdiom hb.within, fun _ => cleared_zeroIdiom b⟩

theorem normal_foldOffsets {clears : Bool} {b : Block} (hb : b.Normal 0 clears)
    (hw : b.weight < 2 ^ 63) : (b.foldOffsets 0).Normal 4095 clears where
  merged := merged_foldOffsets hb.merged hb.within 0
  reduced := reduced_foldOffsets hb.reduced 0
  within := within_folded hb.within hw
  cleared h := cleared_foldOffsets (hb.cleared h) hb.merged hb.within 0

theorem applyIf_fixed {on : Bool} {f : Block → Block} {b : Block} (h : on = true → f b = b) :
    applyIf on f b = b := by
  unfold applyIf
  split
  · rename_i hon
    exact h hon
  · rfl

/-- With merging, the passes find what they left before the split and leave it. -/
theorem optimize_normal {b : Block} {passes : PassSet}
    (hmerges : passes.contains .coalesce = true)
    (hb : b.Normal 4095 (passes.contains .zeroIdiom))
    (hfolded : passes.contains .offsetFold = true → b.foldOffsets 0 = b) :
    b.legalize.optimize passes = b.legalize := by
  have hmerge : applyIf (passes.contains .coalesce) coalesce b.legalize = b := by
    rw [hmerges]
    exact coalesce_legalize hb.merged hb.reduced hb.within
  rw [optimize, hmerge, applyIf_fixed fun h => zeroIdiom_cleared (hb.cleared h),
    applyIf_fixed hfolded]

theorem optimize_merging {b : Block} (hb : b.Within 0) (hreduced : b.Every Op.Reduced)
    (hw : b.weight < 2 ^ 63) {passes : PassSet} (hmerges : passes.contains .coalesce = true) :
    (b.optimize passes).optimize passes = b.optimize passes := by
  have hcoalesce : b.coalesce.Normal 0 false := by
    refine ⟨merged_coalesce b, every_coalesce (fun _ => trivial) ?_ hreduced, within_coalesce hb,
      nofun⟩
    exact fun _ delta _ _ => byteDelta_eq (toInt_byteDelta delta)
  have hidiom := normal_zeroIdiom hcoalesce (passes.contains .zeroIdiom)
  have hweight : (applyIf (passes.contains .zeroIdiom) zeroIdiom b.coalesce).weight < 2 ^ 63 := by
    have hmerged := weightOrder.coalesce b
    have hcleared := weightOrder.zeroIdiom weight_clearsLoops b.coalesce
    apply applyIf_rule (P := fun c => c.weight < 2 ^ 63) <;> omega
  have hsplit : b.optimize passes = legalize (applyIf (passes.contains .offsetFold) (foldOffsets 0)
      (applyIf (passes.contains .zeroIdiom) zeroIdiom b.coalesce)) := by
    rw [optimize, hmerges]
    rfl
  rw [hsplit]
  generalize applyIf (passes.contains .zeroIdiom) zeroIdiom b.coalesce = c at hidiom hweight
  cases hfolds : passes.contains .offsetFold with
  | false =>
    refine optimize_normal hmerges { hidiom with within := hidiom.within.mono (Nat.zero_le _) } ?_
    rw [hfolds]
    exact nofun
  | true =>
    exact optimize_normal hmerges (normal_foldOffsets hidiom hweight)
      (fun _ => foldOffsets_folded hidiom.within 0)

/-- Without merging and folding, nothing is left to split. -/
theorem optimize_unfolded {b : Block} (hb : b.Settled Short) {passes : PassSet}
    (hapart : passes.contains .coalesce = false) (hunfolded : passes.contains .offsetFold = false) :
    (b.optimize passes).optimize passes = b.optimize passes := by
  have hidiom {c : Block} (hc : c.Settled Short) :
      (applyIf (passes.contains .zeroIdiom) zeroIdiom c).Settled Short :=
    applyIf_rule _ hc (every_zeroIdiom (.inl (Nat.zero_le _)) hc)
  have hsplit {c : Block} (hc : c.Settled Short) :
      c.optimize passes = applyIf (passes.contains .zeroIdiom) zeroIdiom c := by
    rw [optimize, hapart, hunfolded]
    exact legalize_settled (hidiom hc)
  rw [hsplit hb, hsplit (hidiom hb)]
  apply applyIf_fixed
  intro hclears
  rw [hclears]
  exact zeroIdiom_cleared (cleared_zeroIdiom b)

/-- Folding alone sees through the split. -/
theorem optimize_folding {b : Block} (hb : b.Within 0) (hreduced : b.Every Op.Reduced)
    (hw : b.weight < 2 ^ 63) {passes : PassSet} (hapart : passes.contains .coalesce = false)
    (hloops : passes.contains .zeroIdiom = false) (hfolds : passes.contains .offsetFold = true) :
    (b.optimize passes).optimize passes = b.optimize passes := by
  have hsplit (c : Block) : c.optimize passes = (c.foldOffsets 0).legalize := by
    rw [optimize, hapart, hloops, hfolds]
    rfl
  rw [hsplit, hsplit, foldOffsets_legalize (reduced_foldOffsets hreduced 0) (within_folded hb hw),
    foldOffsets_folded hb]

end Block

/-- The steps of instructions are settled from the start. -/
theorem Linked.settled {is : Array Instruction} {i stop : Nat} {b : Block}
    (h : Linked is i stop b) : b.Settled Short := by
  induction h with
  | nil i => trivial
  | loop opens closes inside next ihInside ihNext => exact ⟨ihInside, ihNext⟩
  | @step i stop instruction op rest found acts next ih =>
    refine ⟨?_, ih⟩
    cases hk : instruction.kind <;> rw [hk] at acts <;> cases acts <;>
      simp [Op.Settled, Short, Carried]

/-- To optimize the optimized block of a source again with the same passes changes nothing, unless
these clear loops and fold moves but do not merge. -/
theorem Block.optimize_idempotent {source : Source} {p : Program}
    (hp : Program.parse source = .ok p) (hlen : source.bytes.length < 2 ^ 63) (passes : PassSet)
    (hpasses : ¬ (passes.contains .zeroIdiom = true ∧ passes.contains .offsetFold = true ∧
      passes.contains .coalesce = false)) :
    (p.block.optimize passes).optimize passes = p.block.optimize passes := by
  have hlinked := Program.linked_of_parse hp
  obtain ⟨hwithin, hweight⟩ := hlinked.unit
  have hsize := Program.size_parse hp
  have hw : p.block.weight < 2 ^ 63 := by omega
  have hreduced := hlinked.settled.reduced
  cases hmerges : passes.contains .coalesce with
  | true => exact optimize_merging hwithin hreduced hw hmerges
  | false =>
    cases hfolds : passes.contains .offsetFold with
    | false => exact optimize_unfolded hlinked.settled hmerges hfolds
    | true =>
      have hloops : passes.contains .zeroIdiom = false := by
        rw [Bool.eq_false_iff]
        exact fun hclears => hpasses ⟨hclears, hfolds, hmerges⟩
      exact optimize_folding hwithin hreduced hw hmerges hloops hfolds

theorem Block.optimize_idempotent_nested :
    ∃ p, Program.parse ⟨[], text "+>>[<[->+<]>[-+-]<]<-."⟩ = .ok p ∧
      (p.block.optimize .all).optimize .all = p.block.optimize .all := by
  obtain ⟨p, hp⟩ : ∃ p, Program.parse ⟨[], text "+>>[<[->+<]>[-+-]<]<-."⟩ = .ok p := ⟨_, rfl⟩
  exact ⟨p, hp, optimize_idempotent hp (by decide) .all (by decide)⟩

-- Without merging, the moves of `[+><]` cancel too late to clear the loop the first time.
example :
    let b : Block := .loop (.step (.add 1 0) (.step (.move 1) (.step (.move (-1)) .nil))) .nil
    let passes : PassSet := ⟨Pass.zeroIdiom.bit ||| Pass.offsetFold.bit⟩
    b.optimize passes = .loop (.step (.add 1 0) .nil) .nil ∧
      (b.optimize passes).optimize passes = .step (.clear 0) .nil := by
  decide

end TapeLang
