import TapeLang.Proofs.Simulation

namespace TapeLang

/-- Something left to do: a block, or a loop from a test of its cell on. -/
inductive Task where
  | block (b : Block)
  | again (body : Block)
deriving DecidableEq, Repr

/-- A run between two of its steps. -/
structure Stepper (δ : Type) where
  tasks : List Task
  machine : Machine δ
  /-- Why the run stopped before its end. -/
  stop : Option Stop := none

namespace Stepper

variable {δ : Type}

/-- Loop bodies entered so far. -/
def entries (s : Stepper δ) : Nat := s.machine.iterations

def next [Device δ] (s : Stepper δ) : Option (Stepper δ) :=
  match s.tasks with
  | [] => none
  | .block .nil :: rest => some { tasks := rest, machine := s.machine }
  | .block (.step op b) :: rest =>
    match s.machine.tick.perform op with
    | .done m => some { tasks := .block b :: rest, machine := m }
    | .stopped why m => some { tasks := [], machine := m, stop := some why }
    | .outOfFuel => none
  | .block (.loop body b) :: rest =>
    some { tasks := .again body :: .block b :: rest, machine := s.machine.tick }
  | .again body :: rest =>
    match s.machine.locate 0 with
    | .error t => some { tasks := [], machine := s.machine, stop := some (.trap t) }
    | .ok i =>
      if s.machine.cells[i] = 0 then some { tasks := rest, machine := s.machine }
      else some { tasks := .block body :: .again body :: rest, machine := s.machine.enter }

/-- The run comes from one state to the other. -/
def Reaches [Device δ] (s s' : Stepper δ) : Prop := ∃ n, after next n s = some s'

end Stepper

namespace Stepper

variable {δ : Type} [Device δ]

theorem Reaches.refl (s : Stepper δ) : Reaches s s := ⟨0, rfl⟩

theorem Reaches.one {s s' : Stepper δ} (h : next s = some s') : Reaches s s' := ⟨1, after_one h⟩

theorem Reaches.trans {s s' s'' : Stepper δ} (h : Reaches s s') (h' : Reaches s' s'') :
    Reaches s s'' := by
  obtain ⟨m, hm⟩ := h
  obtain ⟨n, hn⟩ := h'
  exact ⟨m + n, after_trans hm hn⟩

/-- A step of the run enters one loop body or none. -/
theorem entries_next {s s' : Stepper δ} (h : next s = some s') :
    s.entries ≤ s'.entries ∧ s'.entries ≤ s.entries + 1 := by
  obtain ⟨tasks, m, stop⟩ := s
  cases tasks with
  | nil => cases h
  | cons task rest =>
    cases task with
    | block b =>
      cases b with
      | nil =>
        cases h
        exact ⟨Nat.le_refl _, Nat.le_succ _⟩
      | step op b =>
        have hp := Machine.perform_settled op m.tick
        simp only [next] at h
        cases ho : m.tick.perform op with
        | done m' =>
          rw [ho] at h hp
          cases h
          exact ⟨Nat.le_of_eq hp.2.symm, Nat.le_succ_of_le (Nat.le_of_eq hp.2)⟩
        | stopped why m' =>
          rw [ho] at h hp
          cases h
          exact ⟨Nat.le_of_eq hp.2.1.symm, Nat.le_succ_of_le (Nat.le_of_eq hp.2.1)⟩
        | outOfFuel =>
          rw [ho] at hp
          exact hp.elim
      | loop body b =>
        cases h
        exact ⟨Nat.le_refl _, Nat.le_succ _⟩
    | again body =>
      simp only [next] at h
      split at h
      · cases h
        exact ⟨Nat.le_refl _, Nat.le_succ _⟩
      · split at h
        · cases h
          exact ⟨Nat.le_refl _, Nat.le_succ _⟩
        · cases h
          exact ⟨Nat.le_succ _, Nat.le_refl _⟩

theorem entries_after {n : Nat} {s s' : Stepper δ} (h : after next n s = some s') :
    s.entries ≤ s'.entries := by
  induction n generalizing s with
  | zero =>
    cases h
    exact Nat.le_refl _
  | succ n ih =>
    obtain ⟨t, ht, hrest⟩ := Option.bind_eq_some_iff.mp h
    exact Nat.le_trans (entries_next ht).1 (ih hrest)

theorem Reaches.entries_le {s s' : Stepper δ} (h : Reaches s s') : s.entries ≤ s'.entries :=
  h.elim fun _ hn => entries_after hn

/-- Later states of a run have entered at least as many bodies. -/
theorem entries_mono {m n : Nat} (hle : m ≤ n) {s s' s'' : Stepper δ}
    (h : after next m s = some s') (h' : after next n s = some s'') :
    s'.entries ≤ s''.entries := by
  obtain ⟨d, rfl⟩ := Nat.exists_eq_add_of_le hle
  rw [after_add, h] at h'
  exact entries_after h'

/-- No state of a run has entered more bodies than the one it ends in. -/
theorem Reaches.entries_le_final {s s' s'' : Stepper δ} (h : Reaches s s') (h' : Reaches s s'')
    (hfinal : next s'' = none) : s'.entries ≤ s''.entries := by
  obtain ⟨m, hm⟩ := h
  obtain ⟨n, hn⟩ := h'
  exact entries_mono (after_le_of_final hn hfinal hm) hm hn

theorem Reaches.final_unique {s s' s'' : Stepper δ} (h : Reaches s s') (hfinal : next s' = none)
    (h' : Reaches s s'') (hfinal' : next s'' = none) : s' = s'' := by
  obtain ⟨m, hm⟩ := h
  obtain ⟨n, hn⟩ := h'
  exact TapeLang.final_unique hm hfinal hn hfinal'

/-- The watch lets the bodies after number `a` up to number `b` be entered. -/
def Calm (w : Watch) (a b : Nat) : Prop := ∀ i, a < i → i ≤ b → w.stops i = false

theorem Calm.same (w : Watch) {a b : Nat} (h : b ≤ a) : Calm w a b := by
  intro i hi hb
  omega

theorem Calm.trans {w : Watch} {a b c : Nat} (h : Calm w a b) (h' : Calm w b c) : Calm w a c := by
  intro i hi hc
  rcases Nat.lt_or_ge b i with hlt | hge
  · exact h' i hlt hc
  · exact h i hi hge

/-- The run comes to the entry of a body and is told to stop there, where it holds `m`. -/
def CutAt (w : Watch) (s : Stepper δ) (m : Machine δ) : Prop :=
  ∃ t tasks, Reaches s t ∧ Calm w s.entries t.entries ∧
    next t = some { tasks, machine := m } ∧ t.entries + 1 = m.iterations ∧
    w.stops m.iterations = true

/-- What an outcome under a watch says about the run from `s`, with `rest` to do afterwards if it
gets there. A run out of fuel has entered that many more bodies. -/
def Tells (w : Watch) (fuel : Nat) (rest : List Task) (s : Stepper δ) :
    Outcome (Machine δ) → Prop
  | .done m => Reaches s { tasks := rest, machine := m } ∧ Calm w s.entries m.iterations
  | .stopped why m =>
    (why ≠ .cancelled ∧ Reaches s { tasks := [], machine := m, stop := some why } ∧
      Calm w s.entries m.iterations) ∨ (why = .cancelled ∧ CutAt w s m)
  | .outOfFuel => ∃ t, Reaches s t ∧ Calm w s.entries t.entries ∧ s.entries + fuel ≤ t.entries

/-- What is told of a later state is told of an earlier one. -/
theorem Tells.earlier {w : Watch} {fuel fuel' : Nat} {rest : List Task} {s s' : Stepper δ}
    {o : Outcome (Machine δ)} (hr : Reaches s s') (hc : Calm w s.entries s'.entries)
    (hfuel : s.entries + fuel ≤ s'.entries + fuel') (h : Tells w fuel' rest s' o) :
    Tells w fuel rest s o := by
  cases o with
  | done m => exact ⟨hr.trans h.1, hc.trans h.2⟩
  | stopped why m =>
    rcases h with ⟨hwhy, hm, hcm⟩ | ⟨hwhy, t, tasks, ht, hct, hnext, hcut⟩
    · exact .inl ⟨hwhy, hr.trans hm, hc.trans hcm⟩
    · exact .inr ⟨hwhy, t, tasks, hr.trans ht, hc.trans hct, hnext, hcut⟩
  | outOfFuel =>
    obtain ⟨t, ht, hct, hle⟩ := h
    exact ⟨t, hr.trans ht, hc.trans hct, Nat.le_trans hfuel hle⟩

theorem repeatBody_tells {w : Watch} {fuel : Nat} {body : Block}
    (hbody : ∀ (rest : List Task) (m : Machine δ), Tells w fuel rest
      { tasks := .block body :: rest, machine := m } (m.exec w fuel body))
    (tests : Nat) (rest : List Task) (m : Machine δ) :
    Tells w (min tests fuel) rest { tasks := .again body :: rest, machine := m }
      (m.repeatBody w (Machine.exec w fuel body) tests) := by
  induction tests generalizing m with
  | zero => exact ⟨_, .refl _, .same w (Nat.le_refl _), by omega⟩
  | succ tests ih =>
    unfold Machine.repeatBody Machine.withCell
    cases hi : m.locate 0 with
    | error t => exact .inl ⟨Stop.noConfusion, .one (by simp [next, hi]), .same w (Nat.le_refl _)⟩
    | ok i =>
      by_cases hz : m.cells[i] = 0
      · simp only [hz, if_true]
        exact ⟨.one (by simp [next, hi, hz]), .same w (Nat.le_refl _)⟩
      · have henter : next { tasks := .again body :: rest, machine := m } =
            some { tasks := .block body :: .again body :: rest, machine := m.enter } := by
          simp only [next, hi, hz, if_false]
        simp only [hz, if_false]
        cases hw : w.stops m.enter.iterations with
        | true =>
          simp only [if_true]
          exact .inr ⟨rfl, _, _, .refl _, .same w (Nat.le_refl _), henter, rfl, hw⟩
        | false =>
          have hcalm : Calm w m.iterations m.enter.iterations := by
            intro j hj hle
            have hj' : j = m.enter.iterations := by
              simp only [Machine.enter] at hle ⊢
              omega
            rw [hj', hw]
          have hround : m.iterations + min (tests + 1) fuel ≤ m.enter.iterations + fuel := by
            simp only [Machine.enter]
            omega
          have hb := hbody (.again body :: rest) m.enter
          simp only [Bool.false_eq_true, if_false]
          cases ho : m.enter.exec w fuel body with
          | done m' =>
            -- the round has used one test and entered one body
            rw [ho] at hb
            refine (ih m').earlier ((Reaches.one henter).trans hb.1) (hcalm.trans hb.2) ?_
            have hle := hb.1.entries_le
            simp only [entries, Machine.enter] at hle ⊢
            omega
          | stopped why m' =>
            rw [ho] at hb
            exact hb.earlier (.one henter) hcalm hround
          | outOfFuel =>
            rw [ho] at hb
            exact hb.earlier (.one henter) hcalm hround

/-- Whatever the watch, a block does what its run does up to where the watch cuts it off. -/
theorem exec_tells (w : Watch) (fuel : Nat) (b : Block) (rest : List Task) (m : Machine δ) :
    Tells w fuel rest { tasks := .block b :: rest, machine := m } (m.exec w fuel b) := by
  induction b generalizing rest m with
  | nil => exact ⟨.one rfl, .same w (Nat.le_refl _)⟩
  | step op b ih =>
    have hp := Machine.perform_settled op m.tick
    simp only [Machine.exec]
    cases ho : m.tick.perform op with
    | done m' =>
      have hsame : m'.iterations = m.iterations := by
        rw [ho] at hp
        exact hp.2
      have hnext : next { tasks := .block (.step op b) :: rest, machine := m } =
          some { tasks := .block b :: rest, machine := m' } := by
        simp only [next, ho]
      apply (ih rest m').earlier (.one hnext)
      · exact .same w (Nat.le_of_eq hsame)
      · exact Nat.add_le_add_right (Nat.le_of_eq hsame.symm) fuel
    | stopped why m' =>
      rw [ho] at hp
      exact .inl ⟨hp.2.2, .one (by simp [next, ho]), .same w (Nat.le_of_eq hp.2.1)⟩
    | outOfFuel =>
      rw [ho] at hp
      exact hp.elim
  | loop body b ihbody ih =>
    have hloop : Tells w fuel (.block b :: rest)
        { tasks := .block (.loop body b) :: rest, machine := m }
        (m.tick.repeatBody w (Machine.exec w fuel body) fuel) := by
      refine (repeatBody_tells ihbody fuel _ m.tick).earlier (.one rfl)
        (.same w (Nat.le_refl _)) ?_
      rw [Nat.min_self]
      exact Nat.le_refl _
    simp only [Machine.exec]
    cases ho : m.tick.repeatBody w (Machine.exec w fuel body) fuel with
    | done m' =>
      rw [ho] at hloop
      refine (ih rest m').earlier hloop.1 hloop.2 ?_
      exact Nat.add_le_add_right hloop.1.entries_le fuel
    | stopped why m' =>
      rw [ho] at hloop
      exact hloop
    | outOfFuel =>
      rw [ho] at hloop
      exact hloop

end Stepper

end TapeLang
