import TapeLang.Proofs.BigStep

namespace TapeLang

section
variable {S : Type} {next : S → Option S}

/-- The state after a number of steps, if the machine gets that far. -/
def after (next : S → Option S) : Nat → S → Option S
  | 0, s => some s
  | n + 1, s => (next s).bind (after next n)

theorem after_one {s s' : S} (h : next s = some s') : after next 1 s = some s' := by
  rw [after, h]
  rfl

theorem after_add (m n : Nat) (s : S) :
    after next (m + n) s = (after next m s).bind (after next n) := by
  induction m generalizing s with
  | zero => simp [after]
  | succ m ih =>
    rw [Nat.succ_add]
    simp only [after]
    cases next s with
    | none => rfl
    | some s' => exact ih s'

theorem after_trans {m n : Nat} {s s' s'' : S} (h : after next m s = some s')
    (h' : after next n s' = some s'') : after next (m + n) s = some s'' := by
  rw [after_add, h]
  exact h'

/-- A machine that gets far gets less far as well. -/
theorem after_of_le {m n : Nat} (hle : m ≤ n) {s s' : S} (h : after next n s = some s') :
    ∃ s'', after next m s = some s'' := by
  obtain ⟨d, rfl⟩ := Nat.exists_eq_add_of_le hle
  rw [after_add] at h
  obtain ⟨s'', hs, -⟩ := Option.bind_eq_some_iff.mp h
  exact ⟨s'', hs⟩

/-- A machine that has come to a state without a next one goes no further. -/
theorem after_le_of_final {m n : Nat} {s s' s'' : S} (h : after next n s = some s')
    (hfinal : next s' = none) (h' : after next m s = some s'') : m ≤ n := by
  rcases Nat.lt_or_ge n m with hlt | hge
  · obtain ⟨k, rfl⟩ : ∃ k, m = n + (k + 1) := ⟨m - n - 1, by omega⟩
    rw [after_add, h] at h'
    simp only [Option.bind_some, after, hfinal, Option.bind_none] at h'
    cases h'
  · exact hge

/-- A machine comes to at most one final state. -/
theorem final_unique {m n : Nat} {s s' s'' : S} (h : after next n s = some s')
    (hfinal : next s' = none) (h' : after next m s = some s'') (hfinal' : next s'' = none) :
    s' = s'' := by
  have hmn : m = n :=
    Nat.le_antisymm (after_le_of_final h hfinal h') (after_le_of_final h' hfinal' h)
  rw [hmn, h] at h'
  exact Option.some.inj h'

/-- A number of steps, each taken from a good state. -/
inductive Path (next : S → Option S) (Good : S → Prop) : Nat → S → S → Prop where
  | refl (s : S) : Path next Good 0 s s
  | step {n : Nat} {s s' s'' : S} (good : Good s) (goes : next s = some s')
      (rest : Path next Good n s' s'') : Path next Good (n + 1) s s''

namespace Path

variable {Good : S → Prop}

theorem after {m : Nat} {s s' : S} (h : Path next Good m s s') : after next m s = some s' := by
  induction h with
  | refl s => rfl
  | step good goes rest ih => simp only [TapeLang.after, goes, Option.bind_some, ih]

theorem trans {m n : Nat} {s s' s'' : S} (h : Path next Good m s s')
    (h' : Path next Good n s' s'') : Path next Good (m + n) s s'' := by
  induction h with
  | refl s =>
    rw [Nat.zero_add]
    exact h'
  | step good goes rest ih =>
    rw [Nat.succ_add]
    exact .step good goes (ih h')

end Path

/-- Every state within a number of steps is good. -/
def Safe (next : S → Option S) (Good : S → Prop) (N : Nat) (s : S) : Prop :=
  ∀ n ≤ N, ∀ s', after next n s = some s' → Good s'

theorem Safe.mono {Good : S → Prop} {M N : Nat} (hle : M ≤ N) {s : S} (h : Safe next Good N s) :
    Safe next Good M s := fun n hn => h n (Nat.le_trans hn hle)

/-- A path of good states is safe as far as what it leads to is. -/
theorem Path.safe {Good : S → Prop} {m N : Nat} {s s' : S} (h : Path next Good m s s')
    (hs : m ≤ N → Safe next Good (N - m) s') : Safe next Good N s := by
  induction h generalizing N with
  | refl s => exact hs (Nat.zero_le N)
  | step good goes rest ih =>
    intro n hn t ht
    cases n with
    | zero =>
      cases ht
      exact good
    | succ n =>
      simp only [TapeLang.after, goes, Option.bind_some] at ht
      refine ih (N := N - 1) ?_ n (by omega) t ht
      intro hm
      have := hs (by omega)
      rwa [Nat.sub_sub, Nat.add_comm 1]

end

/-- What has to hold where a step finishes, and where it halts. -/
def Ending.Meets {δ : Type} (finishes : Config δ → Prop) (halts : Stop → Config δ → Prop) :
    Ending δ → Prop
  | .finished c => finishes c
  | .halted why c => halts why c

/-- A step machine on which blocks are laid out. Places stand for where in its code the machine is;
`Here` says that it is at a place and holds a configuration. -/
structure Simulation (δ : Type) [Device δ] {S : Type} (next : S → Option S) (Place : Type) where
  Code : Block → Place → Place → Prop
  Here : Place → Config δ → S → Prop
  /-- The machine has stopped as a block does. -/
  Stopped : Stop → Config δ → S → Prop
  nil {p q : Place} : Code .nil p q → p = q
  step {op : Op} {rest : Block} {p q : Place} : Code (.step op rest) p q →
    ∃ p', Code rest p' q ∧ ∀ c s, Here p c s → ∃ n s', after next n s = some s' ∧
      (c.act op).Meets (Here p' · s') (Stopped · · s')
  loop {body rest : Block} {p q : Place} : Code (.loop body rest) p q →
    ∃ first last out, Code body first last ∧ Code rest out q ∧
      (∀ c s, Here p c s → ∃ n s', after next n s = some s' ∧
        match c.current? with
        | none => Stopped (c.trap c.pointer) c s'
        | some b => if b = 0 then Here out c s' else 0 < n ∧ Here first c s') ∧
      ∀ c s, Here last c s → ∃ n s', after next n s = some s' ∧ Here p c s'

namespace Simulation

variable {δ : Type} [Device δ] {S Place : Type} {next : S → Option S}

/-- The machine does from a state what an outcome says. A run that wants more fuel shows as at
least so many steps. -/
def Follows (sim : Simulation δ next Place) (fuel : Nat) (q : Place) (s : S) :
    Outcome (Machine δ) → Prop
  | .done m => ∃ n s', after next n s = some s' ∧ sim.Here q m.config s'
  | .stopped why m => ∃ n s', after next n s = some s' ∧ sim.Stopped why m.config s'
  | .outOfFuel => ∃ n s', after next n s = some s' ∧ fuel ≤ n

theorem Follows.prepend {sim : Simulation δ next Place} {fuel fuel' n : Nat} {q : Place} {s s' : S}
    {o : Outcome (Machine δ)} (hs : after next n s = some s') (h : sim.Follows fuel q s' o)
    (hle : fuel' ≤ n + fuel) : sim.Follows fuel' q s o := by
  cases o with
  | done m =>
    obtain ⟨k, t, ht, h⟩ := h
    exact ⟨n + k, t, after_trans hs ht, h⟩
  | stopped why m =>
    obtain ⟨k, t, ht, h⟩ := h
    exact ⟨n + k, t, after_trans hs ht, h⟩
  | outOfFuel =>
    obtain ⟨k, t, ht, h⟩ := h
    exact ⟨n + k, t, after_trans hs ht, by omega⟩

/-- Whoever follows the first part of a run and then the second follows the whole. -/
theorem Follows.andThen {sim : Simulation δ next Place} {fuel : Nat} {p q : Place} {s : S}
    {o : Outcome (Machine δ)} {f : Machine δ → Outcome (Machine δ)}
    (h : sim.Follows fuel p s o)
    (hf : ∀ m s', sim.Here p m.config s' → sim.Follows fuel q s' (f m)) :
    sim.Follows fuel q s (match o with | .done m => f m | outcome => outcome) := by
  cases o with
  | done m =>
    obtain ⟨n, s', hs, hhere⟩ := h
    exact (hf m s' hhere).prepend hs (Nat.le_add_left _ _)
  | stopped why m => exact h
  | outOfFuel => exact h

variable (sim : Simulation δ next Place) {w : Watch} (hw : w.Quiet)

/-- The machine follows a step. -/
theorem follows_perform {op : Op} {p : Place} {m : Machine δ} {s : S} (fuel : Nat)
    (h : ∃ n s', after next n s = some s' ∧
      (m.config.act op).Meets (sim.Here p · s') (sim.Stopped · · s')) :
    sim.Follows fuel p s (m.perform op) := by
  obtain ⟨n, s', hs, hact⟩ := h
  have hend := Machine.perform_ending op m
  cases ho : m.perform op with
  | done m' =>
    rw [ho] at hend
    rw [← Option.some.inj hend] at hact
    exact ⟨n, s', hs, hact⟩
  | stopped why m' =>
    rw [ho] at hend
    rw [← Option.some.inj hend] at hact
    exact ⟨n, s', hs, hact⟩
  | outOfFuel =>
    rw [ho] at hend
    cases hend

include hw in
/-- The machine follows a loop whose body it follows. The induction is on the tests left: each round
takes at least one step, so that a loop out of tests has taken as many steps as tests. -/
theorem follows_repeatBody {p first last out : Place} {fuel : Nat}
    {body : Machine δ → Outcome (Machine δ)}
    (htest : ∀ c s, sim.Here p c s → ∃ n s', after next n s = some s' ∧
      match c.current? with
      | none => sim.Stopped (c.trap c.pointer) c s'
      | some b => if b = 0 then sim.Here out c s' else 0 < n ∧ sim.Here first c s')
    (hback : ∀ c s, sim.Here last c s → ∃ n s', after next n s = some s' ∧ sim.Here p c s')
    (hbody : ∀ m s, sim.Here first m.config s → sim.Follows fuel last s (body m))
    (tests : Nat) (m : Machine δ) (s : S) (hs : sim.Here p m.config s) :
    sim.Follows (min tests fuel) out s (Machine.repeatBody w body tests m) := by
  induction tests generalizing m s with
  | zero => exact ⟨0, s, rfl, Nat.zero_min fuel ▸ Nat.le_refl 0⟩
  | succ tests ih =>
    rw [Machine.repeatBody_succ hw]
    obtain ⟨n, s₁, hs₁, hcell⟩ := htest _ _ hs
    cases hc : m.config.current? with
    | none =>
      rw [hc] at hcell
      exact ⟨n, s₁, hs₁, hcell⟩
    | some b =>
      simp only [hc] at hcell ⊢
      by_cases hb : b = 0
      · rw [if_pos hb] at hcell ⊢
        exact ⟨n, s₁, hs₁, hcell⟩
      · rw [if_neg hb] at hcell ⊢
        obtain ⟨hn, hfirst⟩ := hcell
        refine Follows.prepend hs₁ (?_ : sim.Follows (min tests fuel) out s₁ _) (by omega)
        have hround := hbody m.enter s₁ hfirst
        cases ho : body m.enter with
        | done m' =>
          rw [ho] at hround
          obtain ⟨k, s₂, hs₂, hlast⟩ := hround
          obtain ⟨j, s₃, hs₃, hhere⟩ := hback _ _ hlast
          exact (ih m' s₃ hhere).prepend (after_trans hs₂ hs₃) (Nat.le_add_left _ _)
        | stopped why m' =>
          rw [ho] at hround
          exact hround
        | outOfFuel =>
          rw [ho] at hround
          obtain ⟨k, s₂, hs₂, hk⟩ := hround
          exact ⟨k, s₂, hs₂, by omega⟩

include hw in
/-- The machine follows every block laid out on it. -/
theorem follows_exec (fuel : Nat) {b : Block} {p q : Place} (hcode : sim.Code b p q)
    {m : Machine δ} {s : S} (hs : sim.Here p m.config s) :
    sim.Follows fuel q s (m.exec w fuel b) := by
  induction b generalizing p q m s with
  | nil =>
    obtain rfl := sim.nil hcode
    exact ⟨0, s, rfl, hs⟩
  | step op rest ih =>
    obtain ⟨p', hrest, hstep⟩ := sim.step hcode
    have hperform := follows_perform sim (m := m.tick) fuel (hstep _ _ hs)
    exact hperform.andThen fun m' s' hs' => ih hrest hs'
  | loop body rest ihBody ihRest =>
    obtain ⟨first, last, out, hbody, hrest, htest, hback⟩ := sim.loop hcode
    have hloop := follows_repeatBody sim hw htest hback
      (fun m s hs => ihBody hbody hs) fuel m.tick s hs
    rw [Nat.min_self] at hloop
    exact hloop.andThen fun m' s' hs' => ihRest hrest hs'

end Simulation

end TapeLang
