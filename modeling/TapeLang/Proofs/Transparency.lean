import TapeLang.Proofs.RewriteOrder
import TapeLang.Proofs.Rewriting
import TapeLang.Proofs.Trace

namespace TapeLang

namespace Alike

theorem rewriteOrder : RewriteOrder Alike where
  refl := refl
  trans := trans
  step op _ _ hrest := step op hrest
  loop := loop
  move_zero rest := (move_zero rest).symm
  zero_move := move_zero
  move_move delta delta' rest := (move_move delta delta' rest).symm
  move_step ho delta rest := (move_step ho delta rest).symm
  add_byteDelta := add_byteDelta
  add_add delta delta' offset rest := (add_add delta delta' offset rest).symm

theorem clearsLoops : ClearsLoops Alike := fun _ hodd rest => (clearing hodd rest).symm

theorem repeatMove (delta : Int64) (rest : Block) (n : Nat) :
    Alike (Block.repeatMove delta rest n) (.step (.move (Int64.ofNat n * delta)) rest) := by
  induction n with
  | zero =>
    rw [show Int64.ofNat 0 = 0 from rfl, Int64.zero_mul]
    exact (move_zero rest).symm
  | succ n ih =>
    rw [ofNat_succ_mul]
    exact (step _ ih).trans (move_move delta _ rest)

theorem splitMove (delta : Int64) (rest : Block) :
    Alike (Block.splitMove delta rest) (.step (.move delta) rest) := by
  unfold Block.splitMove
  dsimp only
  generalize (if delta < 0 then -maxImmediate else maxImmediate) = full
  generalize hn : Int64.ofNat (Block.fullMoves delta) * full = far
  have h := repeatMove full (Block.moved (delta - far) rest) (Block.fullMoves delta)
  rw [hn] at h
  refine h.trans ((step _ (rewriteOrder.moved _ rest)).trans ?_)
  have hsum : far + (delta - far) = delta := by
    rw [Int64.add_comm, Int64.sub_add_cancel]
  rw [← hsum]
  simpa only [hsum] using move_move far (delta - far) rest

/-- A step at a far offset may be done by going there and coming back. -/
theorem legalStep (op : Op) (rest : Block) : Alike (rest.legalStep op) (.step op rest) := by
  unfold Block.legalStep
  split
  · exact .refl _
  · rename_i offset ho
    split
    · have hzero : (op.withOffset 0).offset? = some 0 := by
        cases op <;> simp_all [Op.offset?, Op.withOffset]
      have hback : (op.withOffset 0).withOffset (offset + 0) = op := by
        cases op <;> simp_all [Op.offset?, Op.withOffset]
      have hthere := move_step hzero offset (.step (.move (-offset)) rest)
      rw [hback] at hthere
      have hreturn := move_move offset (-offset) rest
      rw [Int64.add_right_neg] at hreturn
      have hinner := step (op.withOffset 0) (splitMove (-offset) rest)
      calc Block.splitMove offset (.step (op.withOffset 0) (Block.splitMove (-offset) rest))
        Alike _ (.step (.move offset) (.step (op.withOffset 0) (Block.splitMove (-offset) rest))) :=
          splitMove offset _
        Alike _ (.step (.move offset) (.step (op.withOffset 0) (.step (.move (-offset)) rest))) :=
          step _ hinner
        Alike _ (.step op (.step (.move offset) (.step (.move (-offset)) rest))) := hthere
        Alike _ (.step op (.step (.move 0) rest)) := step op hreturn
        Alike _ (.step op rest) := step op (move_zero rest)
    · exact .refl _

theorem legalize (b : Block) : Alike b.legalize b := by
  induction b with
  | nil => exact .refl _
  | loop body rest ihBody ihRest => exact loop ihBody ihRest
  | step op rest ih =>
    cases op with
    | move delta => exact (splitMove delta _).trans (step _ ih)
    | add delta offset =>
      exact (legalStep _ _).trans ((add_byteDelta delta offset _).trans (step _ ih))
    | clear offset => exact (legalStep _ _).trans (step _ ih)
    | put offset => exact (legalStep _ _).trans (step _ ih)
    | get offset => exact (legalStep _ _).trans (step _ ih)
    | unknown => exact (legalStep _ _).trans (step _ ih)

end Alike

namespace Block

/-- Every choice of passes gives a block that is alike to the one it was given. -/
theorem alike_optimize (passes : PassSet) {b : Block} (hb : b.Known) :
    Alike (b.optimize passes) b :=
  (Alike.legalize _).trans (Alike.rewriteOrder.rewritten (fun _ => Alike.clearsLoops) hb)

end Block

namespace Ending

variable {δ : Type}

def stop? : Ending δ → Option Stop
  | .finished _ => none
  | .halted why _ => some why

def config : Ending δ → Config δ
  | .finished c => c
  | .halted _ c => c

/-- Endings that look the same differ at most in the pointer of a halt. -/
theorem same_of_unplaced {e e' : Ending δ} (h : e.unplaced = e'.unplaced) :
    e.stop? = e'.stop? ∧ e.config.cells = e'.config.cells ∧ e.config.device = e'.config.device ∧
      (e'.stop? = none → e.config.pointer = e'.config.pointer) := by
  cases e with
  | finished c =>
    rw [← Ending.eq_finished h.symm]
    exact ⟨rfl, rfl, rfl, fun _ => rfl⟩
  | halted why c =>
    obtain ⟨c', rfl, hc⟩ := Ending.eq_halted h.symm
    simp only [unplaced, halted.injEq, Config.mk.injEq, true_and] at hc
    exact ⟨rfl, hc.1.symm, hc.2.symm, nofun⟩

end Ending

namespace Block

/-- What a run leaves behind, read off its ending. -/
theorem ending_of_runWith {fuel : Nat} {w : Watch} {b : Block} {tape : Tape} {console : Console}
    {r : Ran} (h : b.runWith fuel w tape console = some r) :
    ∃ e, (b.runTraced fuel w tape console).ending? = some e ∧
      r.stop = e.stop? ∧ r.tape.cells = e.config.cells ∧ r.tape.pointer = e.config.pointer ∧
      r.console = e.config.device.device.flush ∧
      b.exchanges? fuel w tape console = some e.config.device.trace := by
  rw [runWith_traced] at h
  unfold exchanges?
  cases ho : b.runTraced fuel w tape console with
  | done m =>
    rw [ho] at h
    cases h
    exact ⟨_, rfl, rfl, rfl, rfl, rfl, rfl⟩
  | stopped why m =>
    rw [ho] at h
    cases h
    exact ⟨_, rfl, rfl, rfl, rfl, rfl, rfl⟩
  | outOfFuel =>
    rw [ho] at h
    cases h

theorem runWith_of_ending {fuel : Nat} {w : Watch} {b : Block} {tape : Tape} {console : Console}
    {e : Ending (Traced Console)} (h : (b.runTraced fuel w tape console).ending? = some e) :
    ∃ r, b.runWith fuel w tape console = some r := by
  rw [runWith_traced]
  cases ho : b.runTraced fuel w tape console with
  | done m => exact ⟨_, rfl⟩
  | stopped why m => exact ⟨_, rfl⟩
  | outOfFuel =>
    rw [ho] at h
    cases h

theorem runWith_iff_shows {w : Watch} (hw : w.Quiet) (b : Block) (tape : Tape)
    (console : Console) :
    (∃ fuel r, b.runWith fuel w tape console = some r) ↔
      ∃ e, Shows b (startTraced tape console).config e := by
  constructor
  · rintro ⟨fuel, r, h⟩
    obtain ⟨e, he, -⟩ := ending_of_runWith h
    exact ⟨_, (Machine.runs_of_exec hw b _ e he).shows⟩
  · rintro ⟨e, e', hr, -⟩
    obtain ⟨fuel, hf⟩ := (Machine.exec_iff_runs hw b _ e').mpr hr
    exact ⟨fuel, runWith_of_ending hf⟩

/-- Whatever passes are chosen, a run that nobody cancels ends for the optimized block exactly
when it ends for the block itself. Both then leave the same cells, have asked the same of the
console in the same order, leave the console the same and report the same failure; if they reached
the end, the pointer is the same too. -/
theorem optimize_transparent (passes : PassSet) (b : Block) (hb : b.Known) (interval : Int64)
    (tape : Tape) (console : Console) :
    ((∃ fuel r, (b.optimize passes).runWith fuel { interval } tape console = some r) ↔
      ∃ fuel r, b.runWith fuel { interval } tape console = some r) ∧
    ∀ fuel fuel' r r', b.runWith fuel { interval } tape console = some r →
      (b.optimize passes).runWith fuel' { interval } tape console = some r' →
      r'.tape.cells = r.tape.cells ∧
      (b.optimize passes).exchanges? fuel' { interval } tape console =
        b.exchanges? fuel { interval } tape console ∧
      r'.console = r.console ∧ r'.stop = r.stop ∧ r'.failure = r.failure ∧
      (r.stop = none → r'.tape.pointer = r.tape.pointer) := by
  have quiet := Watch.quiet_interval interval
  have alike := alike_optimize passes hb (Traced Console)
  constructor
  · rw [runWith_iff_shows quiet, runWith_iff_shows quiet]
    exact exists_congr fun e => alike _ e
  · intro fuel fuel' r r' h h'
    obtain ⟨e, he, hstop, hcells, hpointer, hconsole, hx⟩ := ending_of_runWith h
    obtain ⟨e', he', hstop', hcells', hpointer', hconsole', hx'⟩ := ending_of_runWith h'
    have hruns := Machine.runs_of_exec quiet b _ e he
    have hruns' := Machine.runs_of_exec quiet (b.optimize passes) _ e' he'
    obtain ⟨e'', hr, hsame⟩ := (alike _ _).mp hruns'.shows
    cases hr.unique hruns
    obtain ⟨s₁, s₂, s₃, s₄⟩ := Ending.same_of_unplaced hsame.symm
    have stops : r'.stop = r.stop := by rw [hstop', hstop, s₁]
    have consoles : r'.console = r.console := by rw [hconsole', hconsole, s₃]
    refine ⟨by rw [hcells', hcells, s₂], by rw [hx', hx, s₃], consoles, stops, ?_, ?_⟩
    · rw [Ran.failure, Ran.failure, stops, consoles]
    · intro hn
      rw [hpointer', hpointer, s₄ (hstop ▸ hn)]

/-- A far move, a clearing loop and output: the optimized block ends as well. -/
theorem optimize_transparent_clearing :
    (step (.move (-5000)) (step (.move 5000)
      (loop (step (.add (-1) 0) nil) (step (.put 0) nil)))).Known ∧
    ∃ fuel r, ((step (.move (-5000)) (step (.move 5000)
      (loop (step (.add (-1) 0) nil) (step (.put 0) nil)))).optimize .all).runWith fuel
        { interval := 0 } { cells := #[3] } {} = some r := by
  refine ⟨by simp [Known], ?_⟩
  exact (optimize_transparent .all _ (by simp [Known]) 0 _ _).1.mpr ⟨4, _, rfl⟩

end Block

end TapeLang
