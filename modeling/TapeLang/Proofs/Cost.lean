import TapeLang.Proofs.BigStep
import TapeLang.Run

namespace TapeLang

variable {δ : Type}

/-- How a block ends and at what cost: a step costs what its price says, a loop costs one each time
it is reached, and the bodies it enters are counted apart. -/
inductive Spends [Device δ] (price : Op → Nat) :
    Block → Config δ → Ending δ → Nat → Nat → Prop where
  | nil (c : Config δ) : Spends price .nil c (.finished c) 0 0
  | step {op : Op} {rest : Block} {c c' : Config δ} {e : Ending δ} {n i : Nat}
      (acts : c.act op = .finished c') (next : Spends price rest c' e n i) :
      Spends price (.step op rest) c e (n + price op) i
  | stepHalts {op : Op} {c c' : Config δ} {why : Stop}
      (acts : c.act op = .halted why c') (rest : Block) :
      Spends price (.step op rest) c (.halted why c') (price op) 0
  | loopOutside {c : Config δ} (outside : c.current? = none) (body rest : Block) :
      Spends price (.loop body rest) c (.halted (c.trap c.pointer) c) 1 0
  | loopDone {rest : Block} {c : Config δ} {e : Ending δ} {n i : Nat}
      (zero : c.current? = some 0) (body : Block) (next : Spends price rest c e n i) :
      Spends price (.loop body rest) c e (n + 1) i
  -- the loop itself is paid for by the round that ends it
  | loopAgain {body rest : Block} {c c' : Config δ} {e : Ending δ} {b : UInt8} {n n' i i' : Nat}
      (cell : c.current? = some b) (nonzero : b ≠ 0)
      (once : Spends price body c (.finished c') n i)
      (again : Spends price (.loop body rest) c' e n' i') :
      Spends price (.loop body rest) c e (n + n') (i + i' + 1)
  | loopHalts {body : Block} {c c' : Config δ} {b : UInt8} {why : Stop} {n i : Nat}
      (cell : c.current? = some b) (nonzero : b ≠ 0)
      (once : Spends price body c (.halted why c') n i) (rest : Block) :
      Spends price (.loop body rest) c (.halted why c') (n + 1) (i + 1)

namespace Spends

variable [Device δ] {price : Op → Nat} {b : Block} {c : Config δ} {e e' : Ending δ}
  {n n' i i' : Nat}

theorem runs (h : Spends price b c e n i) : Runs b c e := by
  induction h with
  | nil c => exact .nil c
  | step acts _ ih => exact .step acts ih
  | stepHalts acts rest => exact .stepHalts acts rest
  | loopOutside outside body rest => exact .loopOutside outside body rest
  | loopDone zero body _ ih => exact .loopDone zero body ih
  | loopAgain cell nonzero _ _ ihOnce ihAgain => exact .loopAgain cell nonzero ihOnce ihAgain
  | loopHalts cell nonzero _ rest ih => exact .loopHalts cell nonzero ih rest

/-- A block ends at one cost only. -/
theorem unique (h : Spends price b c e n i) (h' : Spends price b c e' n' i') :
    n' = n ∧ i' = i := by
  induction h generalizing e' n' i' with
  | nil c =>
    cases h'
    exact ⟨rfl, rfl⟩
  | step acts _ ih =>
    cases h' with
    | step acts' next' =>
      cases acts.symm.trans acts'
      obtain ⟨rfl, rfl⟩ := ih next'
      exact ⟨rfl, rfl⟩
    | stepHalts acts' => cases acts.symm.trans acts'
  | stepHalts acts =>
    cases h' with
    | step acts' => cases acts.symm.trans acts'
    | stepHalts => exact ⟨rfl, rfl⟩
  | loopOutside outside =>
    cases h' with
    | loopOutside => exact ⟨rfl, rfl⟩
    | loopDone zero => cases outside.symm.trans zero
    | loopAgain cell => cases outside.symm.trans cell
    | loopHalts cell => cases outside.symm.trans cell
  | loopDone zero _ _ ih =>
    cases h' with
    | loopOutside outside => cases outside.symm.trans zero
    | loopDone _ _ next' =>
      obtain ⟨rfl, rfl⟩ := ih next'
      exact ⟨rfl, rfl⟩
    | loopAgain cell nonzero => cases zero.symm.trans cell; exact absurd rfl nonzero
    | loopHalts cell nonzero => cases zero.symm.trans cell; exact absurd rfl nonzero
  | loopAgain cell nonzero once _ ihOnce ihAgain =>
    cases h' with
    | loopOutside outside => cases outside.symm.trans cell
    | loopDone zero => cases zero.symm.trans cell; exact absurd rfl nonzero
    | loopAgain _ _ once' again' =>
      cases once.runs.unique once'.runs
      obtain ⟨rfl, rfl⟩ := ihOnce once'
      obtain ⟨rfl, rfl⟩ := ihAgain again'
      exact ⟨rfl, rfl⟩
    | loopHalts _ _ once' => cases once.runs.unique once'.runs
  | loopHalts cell nonzero once _ ih =>
    cases h' with
    | loopOutside outside => cases outside.symm.trans cell
    | loopDone zero => cases zero.symm.trans cell; exact absurd rfl nonzero
    | loopAgain _ _ once' => cases once.runs.unique once'.runs
    | loopHalts _ _ once' =>
      obtain ⟨rfl, rfl⟩ := ih once'
      exact ⟨rfl, rfl⟩

end Spends

/-- The ending that an outcome stands for, with the counts of its machine. -/
def Outcome.tally? : Outcome (Machine δ) → Option (Ending δ × Nat × Nat)
  | .done m => some (.finished m.config, m.steps, m.iterations)
  | .stopped why m => some (.halted why m.config, m.steps, m.iterations)
  | .outOfFuel => none

/-- From the machine on, the block comes to the ending and the counts at cost one for each step. -/
def Machine.Charges [Device δ] (b : Block) (m : Machine δ) (e : Ending δ) (steps iterations : Nat) :
    Prop :=
  ∃ n i, Spends (fun _ => 1) b m.config e n i ∧ steps = m.steps + n ∧
    iterations = m.iterations + i

namespace Machine

variable [Device δ] {w : Watch} {fuel : Nat}

/-- A loop counts what its rounds cost; the loop itself has been counted when it was reached. -/
theorem charges_of_resume (hw : w.Quiet) {body rest : Block}
    (hbody : ∀ (m : Machine δ) e s t, (exec w fuel body m).tally? = some (e, s, t) →
      Charges body m e s t)
    (hrest : ∀ (m : Machine δ) e s t, (exec w fuel rest m).tally? = some (e, s, t) →
      Charges rest m e s t)
    (tests : Nat) (m : Machine δ) (e : Ending δ) (s t : Nat)
    (h : (resume w fuel tests body rest m).tally? = some (e, s, t)) :
    Charges (.loop body rest) m e (s + 1) t := by
  induction tests generalizing m with
  | zero => cases h
  | succ tests ih =>
    simp only [resume, repeatBody_succ hw] at h
    cases hc : m.config.current? with
    | none =>
      simp only [hc, Outcome.tally?, Option.some.injEq, Prod.mk.injEq] at h
      obtain ⟨rfl, rfl, rfl⟩ := h
      exact ⟨1, 0, .loopOutside hc body rest, rfl, rfl⟩
    | some b =>
      simp only [hc] at h
      by_cases hb : b = 0
      · subst b
        simp only [if_true] at h
        obtain ⟨n, i, next, rfl, rfl⟩ := hrest m e s t h
        exact ⟨n + 1, i, .loopDone hc body next, rfl, rfl⟩
      · simp only [hb, if_false] at h
        cases hm : exec w fuel body m.enter with
        | done m' =>
          simp only [hm] at h
          obtain ⟨n, i, once, hsteps, hiterations⟩ := hbody m.enter _ _ _ (by rw [hm]; rfl)
          obtain ⟨n', i', again, hs, rfl⟩ := ih m' h
          refine ⟨n + n', i + i' + 1, .loopAgain hc hb once again, ?_, ?_⟩
          · rw [hs, hsteps]
            exact Nat.add_assoc m.steps n n'
          · rw [hiterations, show m.enter.iterations = m.iterations + 1 from rfl]
            omega
        | stopped why m' =>
          simp only [hm, Outcome.tally?, Option.some.injEq, Prod.mk.injEq] at h
          obtain ⟨rfl, rfl, rfl⟩ := h
          obtain ⟨n, i, once, hsteps, hiterations⟩ := hbody m.enter _ _ _ (by rw [hm]; rfl)
          refine ⟨n + 1, i + 1, .loopHalts hc hb once rest, ?_, ?_⟩
          · rw [hsteps]
            rfl
          · rw [hiterations, show m.enter.iterations = m.iterations + 1 from rfl]
            omega
        | outOfFuel => simp [hm, Outcome.tally?] at h

/-- A run that nobody cancels counts what it costs. -/
theorem charges_of_exec (hw : w.Quiet) (b : Block) (m : Machine δ) (e : Ending δ) (s t : Nat)
    (h : (exec w fuel b m).tally? = some (e, s, t)) : Charges b m e s t := by
  induction b generalizing m e s t with
  | nil =>
    cases h
    exact ⟨0, 0, .nil m.config, rfl, rfl⟩
  | step op rest ih =>
    have hp := perform_ending op m.tick
    have hcounts := perform_settled op m.tick
    simp only [exec] at h
    cases hm : m.tick.perform op with
    | done m' =>
      rw [hm] at hcounts
      simp only [hm, Outcome.ending?, Option.some.injEq] at h hp
      obtain ⟨n, i, next, rfl, rfl⟩ := ih m' e s t h
      refine ⟨n + 1, i, .step hp.symm next, ?_, ?_⟩
      · rw [hcounts.1, show m.tick.steps = m.steps + 1 from rfl]
        omega
      · rw [hcounts.2]
        rfl
    | stopped why m' =>
      rw [hm] at hcounts
      simp only [hm, Outcome.tally?, Outcome.ending?, Option.some.injEq, Prod.mk.injEq] at h hp
      obtain ⟨rfl, rfl, rfl⟩ := h
      exact ⟨1, 0, .stepHalts hp.symm rest, hcounts.1, hcounts.2.1⟩
    | outOfFuel => simp [hm, Outcome.tally?] at h
  | loop body rest ihBody ihRest =>
    obtain ⟨n, i, spent, hs, rfl⟩ := charges_of_resume hw ihBody ihRest fuel m.tick e s t h
    refine ⟨n, i, spent, ?_, rfl⟩
    rw [show m.tick.steps = m.steps + 1 from rfl] at hs
    omega

end Machine

namespace Block

/-- Where a run on the tape and the console starts. -/
def origin (tape : Tape) (console : Console) : Config Console := ⟨tape.cells, tape.pointer, console⟩

theorem spends_of_runWith {fuel : Nat} {w : Watch} (hw : w.Quiet) {b : Block} {tape : Tape}
    {console : Console} {r : Ran} (h : b.runWith fuel w tape console = some r) :
    ∃ e, Spends (fun _ => 1) b (origin tape console) e r.steps r.iterations := by
  unfold runWith at h
  dsimp only at h
  generalize hm : ({ cells := tape.cells, pointer := tape.pointer, device := console } :
    Machine Console) = m at h
  have htally : ∃ e, (m.exec w fuel b).tally? = some (e, r.steps, r.iterations) := by
    split at h
    · rename_i ho
      cases h
      exact ⟨_, by rw [ho]; rfl⟩
    · rename_i ho
      cases h
      exact ⟨_, by rw [ho]; rfl⟩
    · cases h
  obtain ⟨e, he⟩ := htally
  obtain ⟨n, i, spent, hs, ht⟩ := Machine.charges_of_exec hw b m e _ _ he
  subst hm
  rw [Nat.zero_add] at hs ht
  rw [hs, ht]
  exact ⟨e, spent⟩

theorem runWith_of_spends {w : Watch} (hw : w.Quiet) {price : Op → Nat} {b : Block} {tape : Tape}
    {console : Console} {e : Ending Console} {n i : Nat}
    (h : Spends price b (origin tape console) e n i) :
    ∃ fuel r, b.runWith fuel w tape console = some r := by
  obtain ⟨fuel, hf⟩ := (Machine.exec_iff_runs hw b
    { cells := tape.cells, pointer := tape.pointer, device := console } e).mpr h.runs
  refine ⟨fuel, ?_⟩
  unfold runWith
  dsimp only
  split
  · exact ⟨_, rfl⟩
  · exact ⟨_, rfl⟩
  · rename_i ho
    rw [ho] at hf
    cases hf

end Block

end TapeLang
