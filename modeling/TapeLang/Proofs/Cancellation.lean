import TapeLang.Proofs.Stepping
import TapeLang.Proofs.Trace

namespace TapeLang

namespace Watch

/-- The first body at whose entry the watch says stop. -/
def StopsFirst (w : Watch) (n : Nat) : Prop := w.stops n = true ∧ ∀ i < n, w.stops i = false

theorem period_pos {w : Watch} (h : 0 ≤ w.interval) : 0 < w.period := by
  unfold period
  split
  · decide
  · rename_i hne
    exact Int64.lt_of_le_of_ne h (Ne.symm hne)

theorem toNat_period_pos {w : Watch} (h : 0 ≤ w.interval) : 0 < w.period.toNatClampNeg := by
  have hpos := Int64.lt_iff_toInt_lt.mp (period_pos h)
  have hzero : (0 : Int64).toInt = 0 := rfl
  rw [Int64.toNatClampNeg]
  omega

/-- Looks are made every period, and the one that counts is the first to report cancellation. -/
theorem stopsFirst_look {w : Watch} {look : Nat} (hw : 0 ≤ w.interval) (hraised : w.raised = false)
    (hlook : w.cancelAt = some look) : w.StopsFirst (look * w.period.toNatClampNeg) := by
  have hperiod := toNat_period_pos hw
  constructor
  · simp [stops, hlook, period_pos hw, Nat.mul_div_cancel look hperiod]
  · intro i hi
    have hlt : i / w.period.toNatClampNeg < look := Nat.div_lt_of_lt_mul (by rwa [Nat.mul_comm])
    simp [stops, hraised, hlook, Nat.not_le.mpr hlt]

end Watch

namespace Stepper

variable {δ : Type}

def start (b : Block) (m : Machine δ) : Stepper δ := { tasks := [.block b], machine := m }

/-- What a run that has ended comes to. -/
def outcome (s : Stepper δ) : Outcome (Machine δ) :=
  match s.stop with
  | none => .done s.machine
  | some why => .stopped why s.machine

variable [Device δ]

/-- The run from `s` enters body number `n`, and is at `t` then. -/
def Enters (n : Nat) (s t : Stepper δ) : Prop :=
  ∃ before, Reaches s before ∧ next before = some t ∧ before.entries + 1 = n ∧ t.entries = n

/-- The run from `s` ends at `f`. -/
def EndsAt (s f : Stepper δ) : Prop := Reaches s f ∧ next f = none

theorem EndsAt.unique {s f f' : Stepper δ} (h : EndsAt s f) (h' : EndsAt s f') : f = f' :=
  h.1.final_unique h.2 h'.1 h'.2

/-- The three ways in which a block fares under a watch. -/
theorem exec_cases (w : Watch) (fuel : Nat) (b : Block) (m : Machine δ) :
    (∃ f, EndsAt (start b m) f ∧ Calm w m.iterations f.entries ∧ m.exec w fuel b = f.outcome) ∨
    (∃ m', CutAt w (start b m) m' ∧ m.exec w fuel b = .stopped .cancelled m') ∨
    (∃ t, Reaches (start b m) t ∧ Calm w m.iterations t.entries ∧
      m.iterations + fuel ≤ t.entries ∧ m.exec w fuel b = .outOfFuel) := by
  have h := exec_tells w fuel b [] m
  cases ho : m.exec w fuel b with
  | done m' =>
    rw [ho] at h
    exact .inl ⟨_, ⟨h.1, rfl⟩, h.2, rfl⟩
  | stopped why m' =>
    rw [ho] at h
    rcases h with ⟨-, hr, hc⟩ | ⟨rfl, hcut⟩
    · exact .inl ⟨_, ⟨hr, rfl⟩, hc, rfl⟩
    · exact .inr (.inl ⟨m', hcut, rfl⟩)
  | outOfFuel =>
    rw [ho] at h
    obtain ⟨t, hr, hc, hle⟩ := h
    exact .inr (.inr ⟨t, hr, hc, hle, rfl⟩)

/-- A run that is cut off does not end before the cut. -/
theorem CutAt.le_final {w : Watch} {s f : Stepper δ} {m : Machine δ} (h : CutAt w s m)
    (hf : EndsAt s f) : m.iterations ≤ f.entries := by
  obtain ⟨t, tasks, hr, -, hnext, -, -⟩ := h
  exact (hr.trans (.one hnext)).entries_le_final hf.1 hf.2

/-- A run that ends before the watch says stop ends so under the watch, given enough fuel. -/
theorem exec_of_endsAt {w : Watch} {b : Block} {m : Machine δ} {f : Stepper δ}
    (hf : EndsAt (start b m) f) (hc : Calm w m.iterations f.entries) (fuel : Nat) :
    m.exec w fuel b = f.outcome ∨ (m.exec w fuel b = .outOfFuel ∧ fuel ≤ f.entries) := by
  rcases exec_cases w fuel b m with ⟨f', hf', -, ho⟩ | ⟨m', hcut, -⟩ | ⟨t, hr, -, hle, ho⟩
  · rw [hf.unique hf']
    exact .inl ho
  · have hlast := hcut.le_final hf
    obtain ⟨t, tasks, hr, -, -, hm', hstops⟩ := hcut
    have hge : m.iterations ≤ t.entries := hr.entries_le
    rw [hc m'.iterations (by omega) hlast] at hstops
    cases hstops
  · have := hr.entries_le_final hf.1 hf.2
    exact .inr ⟨ho, by omega⟩

/-- Where the run is when a watch first says stop. -/
theorem exec_cut {w : Watch} {n : Nat} (hw : w.StopsFirst n) {b : Block} {m m' : Machine δ}
    (hm : m.iterations < n) (h : CutAt w (start b m) m') :
    m'.iterations = n ∧ ∃ t, Enters n (start b m) t ∧ t.machine = m' := by
  obtain ⟨t, tasks, hr, hc, hnext, hm', hstops⟩ := h
  have hlower : n ≤ m'.iterations := by
    rcases Nat.lt_or_ge m'.iterations n with hlt | hge
    · rw [hw.2 _ hlt] at hstops
      cases hstops
    · exact hge
  have hupper : m'.iterations ≤ n := by
    rcases Nat.lt_or_ge n m'.iterations with hlt | hge
    · have := hc n hm (by omega)
      rw [hw.1] at this
      cases this
    · exact hge
  have hn := Nat.le_antisymm hupper hlower
  exact ⟨hn, _, ⟨t, hr, hnext, by omega, hn⟩, rfl⟩

/-- A watch that says stop leaves no run without an end. -/
theorem exec_ne_outOfFuel {w : Watch} {n : Nat} (hw : w.StopsFirst n) (b : Block) {m : Machine δ}
    (hm : m.iterations < n) : m.exec w n b ≠ .outOfFuel := by
  intro h
  have ht := exec_tells w n b [] m
  rw [h] at ht
  obtain ⟨t, -, hc, hle⟩ := ht
  have := hc n hm (Nat.le_trans (Nat.le_add_left n _) hle)
  rw [hw.1] at this
  cases this

end Stepper

namespace Block

open Stepper

/-- What is left behind by a run that has come to its end. -/
theorem ranOf_outcome (f : Stepper (Traced Console)) :
    ∃ r, ranOf? f.outcome = some r ∧ r.iterations = f.entries := by
  unfold outcome
  cases f.stop with
  | none => exact ⟨_, rfl, rfl⟩
  | some why => exact ⟨_, rfl, rfl⟩

/-- A run without cancellation that leaves something behind has come to its end. -/
theorem endsAt_of_runWith {w : Watch} (quiet : w.Quiet) {fuel : Nat} {b : Block} {tape : Tape}
    {console : Console} {r : Ran} (h : b.runWith fuel w tape console = some r) :
    ∃ f, EndsAt (start b (startTraced tape console)) f ∧ f.entries = r.iterations ∧
      b.runTraced fuel w tape console = f.outcome := by
  rw [runWith_traced] at h
  rcases exec_cases w fuel b (startTraced tape console) with
    ⟨f, hf, -, ho⟩ | ⟨m', ⟨t, tasks, -, -, -, -, hstops⟩, -⟩ | ⟨t, -, -, -, ho⟩
  · obtain ⟨r', hr', hiter⟩ := ranOf_outcome f
    rw [runTraced, ho, hr'] at h
    cases h
    exact ⟨f, hf, hiter.symm, ho⟩
  · rw [quiet] at hstops
    cases hstops
  · rw [runTraced, ho] at h
    cases h

/-- A run that has an end comes to it where nothing is cancelled. -/
theorem runWith_of_endsAt {w : Watch} (quiet : w.Quiet) {b : Block} {tape : Tape}
    {console : Console} {f : Stepper (Traced Console)}
    (hf : EndsAt (start b (startTraced tape console)) f) :
    ∃ fuel r, b.runWith fuel w tape console = some r ∧ r.iterations = f.entries := by
  obtain ⟨r, hr, hiter⟩ := ranOf_outcome f
  refine ⟨f.entries + 1, r, ?_, hiter⟩
  rw [runWith_traced, runTraced]
  rcases exec_of_endsAt hf (fun i _ _ => quiet i) (f.entries + 1) with ho | ⟨-, hle⟩
  · rw [ho, hr]
  · omega

/-- A run that may be cancelled at its looks ends. Where the run without cancellation ends before
the look that reports it, the two leave the same behind; else the run is cancelled in the state in
which the other, whether it ever ends or not, enters the body of that look. -/
theorem cancellation_cuts_run (b : Block) (tape : Tape) (console : Console) (interval : Int64)
    (look : Nat) (hinterval : 0 ≤ interval) (hlook : 1 ≤ look) :
    let w : Watch := { interval, cancelAt := some look }
    let limit := look * w.period.toNatClampNeg
    (∃ fuel r, b.runWith fuel w tape console = some r) ∧
    ∀ fuel r, b.runWith fuel w tape console = some r →
      (∀ fuel' r', b.runWith fuel' { interval } tape console = some r' → r'.iterations < limit →
        r = r' ∧
        b.exchanges? fuel w tape console = b.exchanges? fuel' { interval } tape console) ∧
      ((∀ fuel' r', b.runWith fuel' { interval } tape console = some r' → limit ≤ r'.iterations) →
        r.stop = some .cancelled ∧ r.failure = some .cancelled ∧ r.iterations = limit ∧
        ∃ t, Enters limit (start b (startTraced tape console)) t ∧
          r.tape = { cells := t.machine.cells, pointer := t.machine.pointer } ∧
          r.steps = t.machine.steps ∧
          b.exchanges? fuel w tape console = some t.machine.device.trace ∧
          r.console = t.machine.device.device.flush) := by
  intro w limit
  have hw : w.StopsFirst limit := Watch.stopsFirst_look hinterval rfl rfl
  have quiet : Watch.Quiet { interval } := Watch.quiet_interval interval
  have hstart : (startTraced tape console).iterations < limit :=
    Nat.mul_pos hlook (Watch.toNat_period_pos hinterval)
  constructor
  · refine ⟨limit, ?_⟩
    rw [runWith_traced, runTraced]
    cases ho : (startTraced tape console).exec w limit b with
    | done m => exact ⟨_, rfl⟩
    | stopped why m => exact ⟨_, rfl⟩
    | outOfFuel => exact absurd ho (exec_ne_outOfFuel hw b hstart)
  · intro fuel r hr
    rw [runWith_traced] at hr
    constructor
    · intro fuel' r' hr' hlt
      obtain ⟨f, hf, hiter, ho'⟩ := endsAt_of_runWith quiet hr'
      have hcalm : Calm w (startTraced tape console).iterations f.entries := by
        intro i _ hi
        exact hw.2 i (by omega)
      rcases exec_of_endsAt hf hcalm fuel with ho | ⟨ho, -⟩
      · rw [runWith_traced, ho'] at hr'
        rw [runTraced, ho, hr'] at hr
        cases hr
        rw [exchanges?, exchanges?, ho', runTraced, ho]
        exact ⟨rfl, rfl⟩
      · rw [runTraced, ho] at hr
        cases hr
    · intro hlong
      rcases exec_cases w fuel b (startTraced tape console) with
        ⟨f, hf, hcalm, -⟩ | ⟨m', hcut, ho⟩ | ⟨t, -, -, -, ho⟩
      · -- a run that ends under the watch ends before the look, also without it
        obtain ⟨fuel', r', hr', hiter⟩ := runWith_of_endsAt quiet hf
        have hstops := hcalm limit hstart (hiter ▸ hlong fuel' r' hr')
        rw [hw.1] at hstops
        cases hstops
      · obtain ⟨hn, t, ht, rfl⟩ := exec_cut hw hstart hcut
        rw [exchanges?, runTraced, ho]
        rw [runTraced, ho] at hr
        cases hr
        exact ⟨rfl, rfl, hn, t, ht, rfl, rfl, rfl, rfl⟩
      · rw [runTraced, ho] at hr
        cases hr

/-- Twice over, a loop counts the next cell down from two and puts what it holds. -/
def countdown : Block :=
  loop (step (.add 2 1) (step (.move 1) (loop (step (.add (-1) 0) (step (.put 0) nil))
    (step (.move (-1)) (step (.add (-1) 0) nil))))) nil

theorem cancellation_cuts_run_nested :
    let w : Watch := { interval := 1, cancelAt := some 3 }
    let tape : Tape := { cells := #[2, 0] }
    (0 : Int64) ≤ w.interval ∧ 1 ≤ 3 ∧
    ((countdown.runWith 9 { interval := 1 } tape {}).map (·.iterations)) = some 6 ∧
    ∃ r, countdown.runWith 9 w tape {} = some r ∧ r.failure = some .cancelled ∧
      r.iterations = 3 ∧ r.tape = { cells := #[2, 1], pointer := 1 } ∧
      countdown.exchanges? 9 w tape {} = some [.put 1] := by
  intro w tape
  have hlong : ((countdown.runWith 9 { interval := 1 } tape {}).map (·.iterations)) = some 6 := by
    decide +kernel
  have htape : (countdown.runWith 9 w tape {}).map (·.tape) =
      some { cells := #[2, 1], pointer := 1 } := by decide +kernel
  have hasked : countdown.exchanges? 9 w tape {} = some [.put 1] := by decide +kernel
  obtain ⟨r₀, hr₀, hiter⟩ := Option.map_eq_some_iff.mp hlong
  obtain ⟨r, hr, hrtape⟩ := Option.map_eq_some_iff.mp htape
  have h := ((cancellation_cuts_run countdown tape {} 1 3 (by decide) (by decide)).2 9 r hr).2
  obtain ⟨-, hfailure, hcount, -⟩ := h (by
    -- with more fuel than both have, the two runs without cancellation are the same
    intro fuel r' hr'
    have hsame := (runWith_more (Nat.le_max_left 9 fuel) hr₀).1
    rw [(runWith_more (Nat.le_max_right 9 fuel) hr').1] at hsame
    cases hsame
    rw [hiter]
    decide)
  exact ⟨by decide, by decide, hlong, r, hr, hfailure, hcount, hrtape, hasked⟩

end Block

end TapeLang
