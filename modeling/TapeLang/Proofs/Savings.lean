import TapeLang.Proofs.Cost
import TapeLang.Proofs.Legality
import TapeLang.Proofs.Rewriting

namespace TapeLang

/-- No more of them, and just as many unless some loops are cleared away. -/
def AtMost (clears : Bool) (i j : Nat) : Prop := i ≤ j ∧ (clears = false → i = j)

namespace AtMost

variable {clears : Bool} {i i' j j' : Nat}

theorem refl (clears : Bool) (i : Nat) : AtMost clears i i := ⟨Nat.le_refl i, fun _ => rfl⟩

theorem trans (h : AtMost clears i i') (h' : AtMost clears i' j) : AtMost clears i j :=
  ⟨Nat.le_trans h.1 h'.1, fun hkept => (h.2 hkept).trans (h'.2 hkept)⟩

theorem add (h : AtMost clears i j) (h' : AtMost clears i' j') :
    AtMost clears (i + i') (j + j') :=
  ⟨Nat.add_le_add h.1 h'.1, fun hkept => by rw [h.2 hkept, h'.2 hkept]⟩

theorem of_le (h : i ≤ j) : AtMost true i j := ⟨h, fun hkept => by cases hkept⟩

end AtMost

variable {δ : Type}

/-- The block comes to the ending, as far as can be seen, within `n` steps and `i` loop bodies. -/
def Affords [Device δ] (clears : Bool) (price : Op → Nat) (b : Block) (c : Config δ)
    (e : Ending δ) (n i : Nat) : Prop :=
  ∃ e' n' i', Spends price b c e' n' i' ∧ e'.unplaced = e ∧ n' ≤ n ∧ AtMost clears i' i

section
variable [Device δ] {clears : Bool} {price : Op → Nat} {b rest : Block} {c c' : Config δ}
  {e : Ending δ} {n n' i i' : Nat} {op : Op}

theorem Spends.affords (h : Spends price b c e n i) :
    Affords clears price b c e.unplaced n i :=
  ⟨e, n, i, h, rfl, Nat.le_refl n, .refl clears i⟩

theorem Affords.mono (h : Affords clears price b c e n i) (hn : n ≤ n')
    (hi : AtMost clears i i') : Affords clears price b c e n' i' := by
  obtain ⟨e', k, j, spent, he, hk, hj⟩ := h
  exact ⟨e', k, j, spent, he, Nat.le_trans hk hn, hj.trans hi⟩

/-- A larger allowance for the steps. -/
theorem Affords.more (h : Affords clears price b c e n i) (hn : n ≤ n') :
    Affords clears price b c e n' i :=
  h.mono hn (.refl clears i)

theorem affords_step : Affords clears price (.step op rest) c e n i ↔
    ∃ k, n = k + price op ∧
      match c.act op with
      | .finished c' => Affords clears price rest c' e k i
      | .halted why c' => (Ending.halted why c').unplaced = e ∧ AtMost clears 0 i := by
  constructor
  · rintro ⟨e', n', i', h, rfl, hn, hi⟩
    cases h with
    | step acts next =>
      refine ⟨n - price op, by omega, ?_⟩
      simp only [acts]
      exact ⟨e', _, _, next, rfl, by omega, hi⟩
    | stepHalts acts =>
      refine ⟨n - price op, by omega, ?_⟩
      simp only [acts]
      exact ⟨trivial, hi⟩
  · rintro ⟨k, rfl, h⟩
    cases ha : c.act op with
    | finished c' =>
      simp only [ha] at h
      obtain ⟨e', n', i', spent, he, hn, hi⟩ := h
      exact ⟨e', _, _, .step ha spent, he, Nat.add_le_add_right hn _, hi⟩
    | halted why c' =>
      simp only [ha] at h
      exact ⟨_, _, _, .stepHalts ha rest, h.1, Nat.le_add_left _ _, h.2⟩

theorem affords_move {delta : Int64} : Affords clears price (.step (.move delta) rest) c e n i ↔
    ∃ k, n = k + price (.move delta) ∧ Affords clears price rest (c.move delta) e k i :=
  affords_step

end

/-- Whatever the second block can be run for, the first can be run for too, each at its prices. -/
def Saves (clears : Bool) (price price' : Op → Nat) (b b' : Block) : Prop :=
  ∀ (δ : Type) [Device δ] (c : Config δ) (e : Ending δ) (n i : Nat),
    Affords clears price' b' c e n i → Affords clears price b c e n i

namespace Saves

variable {clears : Bool} {price price' price'' : Op → Nat}
  {b b' b'' body body' rest rest' : Block}

theorem refl (b : Block) : Saves clears price price b b := fun _ _ _ _ _ _ h => h

theorem trans (h : Saves clears price price' b b') (h' : Saves clears price' price'' b' b'') :
    Saves clears price price'' b b'' :=
  fun δ _ c e n i hb => h δ c e n i (h' δ c e n i hb)

theorem nil : Saves clears price price' .nil .nil := by
  intro δ _ c e n i h
  obtain ⟨e', n', i', spent, rfl, hn, hi⟩ := h
  cases spent
  exact ⟨_, 0, 0, .nil c, rfl, hn, hi⟩

/-- Steps that act alike may stand for each other if the first is no dearer. -/
theorem act {op op' : Op} (hprice : price op ≤ price' op')
    (hact : ∀ (δ : Type) [Device δ] (c : Config δ), c.act op = c.act op')
    (hrest : Saves clears price price' rest rest') :
    Saves clears price price' (.step op rest) (.step op' rest') := by
  intro δ _ c e n i h
  obtain ⟨k, rfl, next⟩ := affords_step.mp h
  refine affords_step.mpr ⟨k + price' op' - price op, by omega, ?_⟩
  rw [hact δ c]
  cases hc : c.act op' with
  | finished c' =>
    simp only [hc] at next
    exact (hrest δ c' e k i next).more (by omega)
  | halted why c' => simpa only [hc] using next

theorem step {op : Op} (hprice : price op ≤ price' op)
    (hrest : Saves clears price price' rest rest') :
    Saves clears price price' (.step op rest) (.step op rest') :=
  act hprice (fun _ _ _ => rfl) hrest

/-- A body that saves in each round gives a loop that saves. -/
theorem loop_of_spends [Device δ] {c : Config δ} {e : Ending δ} {n i : Nat}
    (h : Spends price' b c e n i) (hb : b = .loop body' rest')
    (hbody : Saves clears price price' body body') (hrest : Saves clears price price' rest rest') :
    Affords clears price (.loop body rest) c e.unplaced n i := by
  induction h with
  | nil => cases hb
  | step => cases hb
  | stepHalts => cases hb
  | loopOutside outside =>
    cases hb
    exact (Spends.loopOutside outside body rest).affords
  | loopDone zero _ next =>
    cases hb
    obtain ⟨e', n', i', spent, he, hn, hi⟩ := hrest δ _ _ _ _ next.affords
    exact ⟨e', _, _, .loopDone zero body spent, he, Nat.add_le_add_right hn 1, hi⟩
  | loopAgain cell nonzero once again _ ih =>
    cases hb
    obtain ⟨e', n', i', spent, he, hn, hi⟩ := hbody δ _ _ _ _ once.affords
    cases Ending.eq_finished he
    obtain ⟨e'', n'', i'', spent', he', hn', hi'⟩ := ih rfl
    refine ⟨e'', _, _, .loopAgain cell nonzero spent spent', he', Nat.add_le_add hn hn', ?_⟩
    exact (hi.add hi').add (.refl clears 1)
  | loopHalts cell nonzero once =>
    cases hb
    obtain ⟨e', n', i', spent, he, hn, hi⟩ := hbody δ _ _ _ _ once.affords
    obtain ⟨c', rfl, hc⟩ := Ending.eq_halted he
    refine ⟨_, _, _, .loopHalts cell nonzero spent rest, hc, Nat.add_le_add_right hn 1, ?_⟩
    exact hi.add (.refl clears 1)

theorem loop (hbody : Saves clears price price' body body')
    (hrest : Saves clears price price' rest rest') :
    Saves clears price price' (.loop body rest) (.loop body' rest') := by
  intro δ _ c e n i h
  obtain ⟨e', n', i', spent, rfl, hn, hi⟩ := h
  exact (loop_of_spends spent rfl hbody hrest).mono hn hi

/-- A block saves by itself where its steps get no dearer. -/
theorem reprice {b : Block} (hb : b.Every fun op => price op ≤ price' op) :
    Saves clears price price' b b := by
  induction b with
  | nil => exact nil
  | step op rest ih => exact step hb.1 (ih hb.2)
  | loop body rest ihBody ihRest => exact loop (ihBody hb.1) (ihRest hb.2)

theorem move_zero (rest : Block) :
    Saves clears Op.weight Op.weight rest (.step (.move 0) rest) := by
  intro δ _ c e n i h
  obtain ⟨k, rfl, next⟩ := affords_move.mp h
  rw [Config.move_zero] at next
  exact next

/-- A move that goes nowhere is free. -/
theorem zero_move (rest : Block) :
    Saves clears Op.weight Op.weight (.step (.move 0) rest) rest := by
  intro δ _ c e n i h
  refine affords_move.mpr ⟨n, rfl, ?_⟩
  rw [Config.move_zero]
  exact h

theorem move_move (delta delta' : Int64) (rest : Block) :
    Saves clears Op.weight Op.weight (.step (.move (delta + delta')) rest)
      (.step (.move delta) (.step (.move delta') rest)) := by
  intro δ _ c e n i h
  obtain ⟨k, rfl, first⟩ := affords_move.mp h
  obtain ⟨k', rfl, next⟩ := affords_move.mp first
  rw [Config.move_move] at next
  have hsum := natAbs_add_le delta delta'
  have hmoved : Affords clears Op.weight (.step (.move (delta + delta')) rest) c e
      (k' + (delta + delta').toInt.natAbs) i := affords_move.mpr ⟨k', rfl, next⟩
  apply hmoved.more
  simp only [Op.weight]
  omega

/-- The move is only paid for if the step that it passes over does not halt. -/
theorem move_step {op : Op} {offset : Int64} (ho : op.offset? = some offset) (delta : Int64)
    (rest : Block) :
    Saves clears Op.weight Op.weight
      (.step (op.withOffset (delta + offset)) (.step (.move delta) rest))
      (.step (.move delta) (.step op rest)) := by
  intro δ _ c e n i h
  obtain ⟨k, rfl, first⟩ := affords_move.mp h
  obtain ⟨k', rfl, next⟩ := affords_step.mp first
  rw [Config.act_move ho] at next
  refine affords_step.mpr ⟨k' + Op.weight (.move delta), ?_, ?_⟩
  · rw [Op.weight_withOffset]
    omega
  · cases hc : c.act (op.withOffset (delta + offset)) with
    | finished c' =>
      rw [hc] at next
      exact affords_move.mpr ⟨k', rfl, next⟩
    | halted why c' =>
      rw [hc] at next
      exact next

theorem add_add (delta delta' offset : Int64) (rest : Block) :
    Saves clears Op.weight Op.weight (.step (.add (delta + delta') offset) rest)
      (.step (.add delta offset) (.step (.add delta' offset) rest)) := by
  intro δ _ c e n i h
  obtain ⟨k, rfl, first⟩ := affords_step.mp h
  have hsum := Config.act_add_add (c := c) delta delta' offset
  cases hc : c.act (.add delta offset) with
  | finished c' =>
    simp only [hc, Ending.andThen] at first hsum
    obtain ⟨k', rfl, next⟩ := affords_step.mp first
    rw [hsum] at next
    have hadded : Affords clears Op.weight (.step (.add (delta + delta') offset) rest) c e
        (k' + 1) i := affords_step.mpr ⟨k', rfl, next⟩
    exact hadded.more (Nat.le_succ _)
  | halted why c' =>
    rw [hc] at first hsum
    refine affords_step.mpr ⟨k, rfl, ?_⟩
    rw [← hsum]
    exact first

/-- Rewriting saves if a move costs as much as it goes. -/
theorem rewriteOrder : RewriteOrder (Saves clears Op.weight Op.weight) where
  refl := refl
  trans := trans
  step _ _ _ hrest := step (Nat.le_refl _) hrest
  loop := loop
  move_zero := move_zero
  zero_move := zero_move
  move_move := move_move
  move_step := move_step
  add_byteDelta delta offset rest :=
    act (Nat.le_refl 1) (fun _ _ _ => Config.act_byteDelta delta offset) (refl rest)
  add_add := add_add

/-- A loop that adds to its cell until it is zero costs no less than to clear the cell. -/
theorem clear_of_spends [Device δ] {c : Config δ} {e : Ending δ} {n i : Nat} {delta : Int64}
    (h : Spends Op.weight b c e n i) (hb : b = .loop (.step (.add delta 0) .nil) rest) :
    Affords true Op.weight (.step (.clear 0) rest) c e.unplaced n i := by
  induction h with
  | nil => cases hb
  | step => cases hb
  | stepHalts => cases hb
  | @loopOutside c outside =>
    cases hb
    have hclear : c.act (.clear 0) = .halted (c.trap c.pointer) c := by
      rw [Config.current?, Option.map_eq_none_iff] at outside
      simp only [Config.act, Config.access, Int64.add_zero, outside]
    exact (Spends.stepHalts hclear rest).affords
  | @loopDone _ c _ _ _ zero _ next =>
    cases hb
    obtain ⟨j, hj, hzero⟩ := Option.map_eq_some_iff.mp zero
    have hclear : c.act (.clear 0) = .finished c := by
      simp only [Config.act, Config.access, Int64.add_zero, hj]
      rw [← hzero, Config.store_load (Config.lt_of_index hj)]
    exact (Spends.step hclear next).affords
  | @loopAgain _ _ c _ _ _ n n' i i' cell nonzero once again _ ih =>
    cases hb
    -- the round is made up for, since clearing forgets what it added
    have hround := Config.act_add_clear (c := c) delta 0
    cases once with
    | step acts last =>
      cases last
      simp only [acts, Ending.andThen] at hround
      obtain ⟨k, hk, next⟩ := affords_step.mp (ih rfl)
      rw [hround] at next
      have hcleared : Affords true Op.weight (.step (.clear 0) rest) c _ n' i' :=
        affords_step.mpr ⟨k, hk, next⟩
      exact hcleared.mono (Nat.le_add_left _ _) (.of_le (by omega))
  | @loopHalts _ c _ _ _ n i cell nonzero once =>
    cases hb
    have hround := Config.act_add_clear (c := c) delta 0
    cases once with
    | step acts last => cases last
    | stepHalts acts =>
      rw [acts] at hround
      have hcleared : Affords true Op.weight (.step (.clear 0) rest) c _ 1 0 :=
        (Spends.stepHalts hround.symm rest).affords
      exact hcleared.mono (Nat.le_add_left _ _) (.of_le (Nat.zero_le _))

theorem clearsLoops : ClearsLoops (Saves true Op.weight Op.weight) := by
  intro delta _ rest δ _ c e n i h
  obtain ⟨e', n', i', spent, rfl, hn, hi⟩ := h
  exact (clear_of_spends spent rfl).mono hn hi

end Saves

section split
variable [Device δ] {clears : Bool} {rest : Block} {c : Config δ} {e : Ending δ} {n i : Nat}

theorem affords_repeatMove (delta : Int64) (times : Nat)
    (h : Affords clears (fun _ => 1) rest (c.move (Int64.ofNat times * delta)) e n i) :
    Affords clears (fun _ => 1) (Block.repeatMove delta rest times) c e (n + times) i := by
  induction times generalizing c with
  | zero =>
    rw [show Int64.ofNat 0 = 0 from rfl, Int64.zero_mul, Config.move_zero] at h
    exact h
  | succ times ih =>
    rw [ofNat_succ_mul, ← Config.move_move] at h
    exact affords_move.mpr ⟨n + times, rfl, ih h⟩

/-- A split move is made for no more than it has cells to go. -/
theorem affords_splitMove {delta : Int64} (hdelta : delta.toInt.natAbs < 2 ^ 63)
    (h : Affords clears (fun _ => 1) rest (c.move delta) e n i) :
    Affords clears (fun _ => 1) (Block.splitMove delta rest) c e (n + delta.toInt.natAbs) i := by
  obtain ⟨full, left, times, heq, hsum, -, -, hpieces⟩ := Block.splitMove_eq hdelta
  rw [← hsum, ← Config.move_move] at h
  have hmoved : Affords clears (fun _ => 1) (Block.moved left rest)
      (c.move (Int64.ofNat times * full)) e (n + left.toInt.natAbs) i := by
    unfold Block.moved
    split
    · rename_i hzero
      rw [hzero, Config.move_zero] at h
      exact h.more (Nat.le_add_right _ _)
    · rename_i hne
      have hcells : left.toInt ≠ 0 := fun hzero => hne (Int64.toInt_inj.mp hzero)
      exact affords_move.mpr ⟨n + left.toInt.natAbs - 1, by omega, h.more (by omega)⟩
  rw [heq]
  exact (affords_repeatMove full times hmoved).more (by omega)

end split

/-- A legal block makes each step for one, where the block it came from pays for moves by their
length. -/
theorem Saves.legalize {clears : Bool} {b : Block} (hb : b.Within 4095)
    (hw : b.weight < 2 ^ 63) : Saves clears (fun _ => 1) Op.weight b.legalize b := by
  induction b with
  | nil => exact nil
  | loop body rest ihBody ihRest =>
    simp only [Block.weight] at hw
    exact loop (ihBody hb.1 (by omega)) (ihRest hb.2 (by omega))
  | step op rest ih =>
    simp only [Block.weight] at hw
    have hrest := ih hb.2 (by omega)
    have hkept (hone : op.weight = 1) : Saves clears (fun _ => 1) Op.weight
        (rest.legalize.legalStep op) (.step op rest) := by
      rw [Block.legalStep_within hb.1]
      exact step (Nat.le_of_eq hone.symm) hrest
    cases op with
    | move delta =>
      intro δ _ c e n i h
      obtain ⟨k, rfl, next⟩ := affords_move.mp h
      simp only [Op.weight] at hw
      exact affords_splitMove (by omega) (hrest δ _ e k i next)
    | add delta offset =>
      have hwithin : (Op.add (byteDelta delta) offset).Within 4095 :=
        ⟨Op.noConfusion, hb.1.2⟩
      rw [Block.legalize, Block.legalStep_within hwithin]
      exact act (Nat.le_refl 1) (fun _ _ _ => Config.act_byteDelta delta offset) hrest
    | clear offset => exact hkept rfl
    | put offset => exact hkept rfl
    | get offset => exact hkept rfl
    | unknown => exact hkept rfl

namespace Block

/-- The optimized block of unit steps saves. -/
theorem saves_optimize {b : Block} (hb : b.Within 0) (hunits : b.Every fun op => op.weight = 1)
    (hw : b.weight < 2 ^ 63) (passes : PassSet) :
    Saves (passes.contains .zeroIdiom) (fun _ => 1) (fun _ => 1) (b.optimize passes) b := by
  have hless := weight_rewritten hb.known passes
  have hlegal : Saves (passes.contains .zeroIdiom) (fun _ => 1) Op.weight
      (b.optimize passes) (b.rewritten passes) :=
    Saves.legalize (within_rewritten hb hw passes) (Nat.lt_of_le_of_lt hless hw)
  have hrewritten : Saves (passes.contains .zeroIdiom) Op.weight Op.weight
      (b.rewritten passes) b := by
    apply Saves.rewriteOrder.rewritten _ hb.known
    intro hclears
    rw [hclears]
    exact Saves.clearsLoops
  have hunit : Saves (passes.contains .zeroIdiom) Op.weight (fun _ => 1) b b :=
    Saves.reprice (hunits.imp fun _ hone => Nat.le_of_eq hone)
  exact hlegal.trans (hrewritten.trans hunit)

/-- Optimized runs are never longer. If a run of the block of a source ends and nobody cancels it,
then so does the run of the optimized block, after no more steps and with no more loop bodies
entered, and just as many of these if clearing loops are kept. -/
theorem runWith_optimize_le {source : Source} {p : Program} (hp : Program.parse source = .ok p)
    (hlen : source.bytes.length < 2 ^ 63) (passes : PassSet) (interval : Int64) (tape : Tape)
    (console : Console) {fuel : Nat} {r : Ran}
    (h : p.block.runWith fuel { interval } tape console = some r) :
    (∃ fuel' r', (p.block.optimize passes).runWith fuel' { interval } tape console = some r') ∧
      ∀ fuel' r', (p.block.optimize passes).runWith fuel' { interval } tape console = some r' →
        r'.steps ≤ r.steps ∧ r'.iterations ≤ r.iterations ∧
          (passes.contains .zeroIdiom = false → r'.iterations = r.iterations) := by
  have quiet := Watch.quiet_interval interval
  have hlinked := Program.linked_of_parse hp
  obtain ⟨hwithin, hweight⟩ := hlinked.unit
  have hsize := Program.size_parse hp
  have hsaves := saves_optimize hwithin hlinked.units (by omega) passes
  obtain ⟨e, spent⟩ := spends_of_runWith quiet h
  obtain ⟨e', n, i, spent', -, hn, hi⟩ := hsaves _ _ _ _ _ spent.affords
  refine ⟨runWith_of_spends quiet spent', ?_⟩
  intro fuel' r' h'
  obtain ⟨e'', counted⟩ := spends_of_runWith quiet h'
  obtain ⟨hsteps, hiterations⟩ := spent'.unique counted
  rw [hsteps, hiterations]
  exact ⟨hn, hi.1, hi.2⟩

/-- A loop in a loop, of which the inner one only clears its cell, and a trap at the end. -/
theorem runWith_optimize_le_nested :
    ∃ p r, Program.parse ⟨[], text "++[>+++[-]<-]<."⟩ = .ok p ∧
      p.block.runWith 9 { interval := 0 } { cells := #[0, 0] } {} = some r ∧
      ∃ fuel r', (p.block.optimize .all).runWith fuel { interval := 0 } { cells := #[0, 0] } {} =
        some r' ∧ r'.steps ≤ r.steps ∧ r'.iterations ≤ r.iterations := by
  obtain ⟨p, hp⟩ : ∃ p, Program.parse ⟨[], text "++[>+++[-]<-]<."⟩ = .ok p := ⟨_, rfl⟩
  have hends : ((Program.parse ⟨[], text "++[>+++[-]<-]<."⟩).toOption.bind fun p =>
      p.block.runWith 9 { interval := 0 } { cells := #[0, 0] } {}).isSome = true := by
    decide +kernel
  rw [hp] at hends
  obtain ⟨r, hr⟩ := Option.isSome_iff_exists.mp hends
  obtain ⟨⟨fuel, r', hr'⟩, hle⟩ := runWith_optimize_le hp (by decide) .all 0 _ _ hr
  exact ⟨p, r, hp, hr, fuel, r', hr', (hle fuel r' hr').1, (hle fuel r' hr').2.1⟩

end Block

end TapeLang
