import TapeLang.Proofs.BigStep

namespace TapeLang

variable {δ : Type}

/-- The ending, where the pointer of a run that halted is forgotten. -/
def Ending.unplaced : Ending δ → Ending δ
  | .finished c => .finished c
  | .halted why c => .halted why { c with pointer := 0 }

/-- What can be seen of a run of the block: its ending but for the pointer of a halt. -/
def Shows [Device δ] (b : Block) (c : Config δ) (e : Ending δ) : Prop :=
  ∃ e', Runs b c e' ∧ e'.unplaced = e

theorem Ending.eq_finished {e : Ending δ} {c : Config δ} (h : e.unplaced = .finished c) :
    e = .finished c := by
  cases e with
  | finished c' => exact h
  | halted why c' => cases h

theorem Ending.eq_halted {e : Ending δ} {why : Stop} {c : Config δ}
    (h : e.unplaced = .halted why c) :
    ∃ c', e = .halted why c' ∧ (Ending.halted why c').unplaced = .halted why c := by
  cases e with
  | finished c' => cases h
  | halted why' c' =>
    cases h
    exact ⟨c', rfl, rfl⟩

section
variable [Device δ] {b rest : Block} {c c' : Config δ} {e : Ending δ} {op : Op}

theorem Runs.shows (h : Runs b c e) : Shows b c e.unplaced := ⟨e, h, rfl⟩

@[simp] theorem shows_nil : Shows .nil c e ↔ e = .finished c := by
  constructor
  · rintro ⟨e', h, rfl⟩
    cases h
    rfl
  · rintro rfl
    exact (Runs.nil c).shows

theorem shows_step : Shows (.step op rest) c e ↔
    match c.act op with
    | .finished c' => Shows rest c' e
    | .halted why c' => (Ending.halted why c').unplaced = e := by
  constructor
  · rintro ⟨e', h, rfl⟩
    cases h with
    | step acts next => simpa only [acts] using next.shows
    | stepHalts acts => simp only [acts]
  · intro h
    cases ha : c.act op with
    | finished c' =>
      simp only [ha] at h
      obtain ⟨e', hr, rfl⟩ := h
      exact (Runs.step ha hr).shows
    | halted why c' =>
      simp only [ha] at h
      subst e
      exact (Runs.stepHalts ha rest).shows

@[simp] theorem shows_move {delta : Int64} :
    Shows (.step (.move delta) rest) c e ↔ Shows rest (c.move delta) e := by
  rw [shows_step]
  rfl

theorem shows_loop_done {body : Block} (zero : c.current? = some 0) :
    Shows (.loop body rest) c e ↔ Shows rest c e := by
  constructor
  · rintro ⟨e', h, rfl⟩
    cases h with
    | loopOutside outside => simp [zero] at outside
    | loopDone _ _ next => exact next.shows
    | loopAgain cell nonzero => simp_all
    | loopHalts cell nonzero => simp_all
  · rintro ⟨e', h, rfl⟩
    exact (Runs.loopDone zero body h).shows

/-- A loop whose body finishes does it and starts over. -/
theorem shows_loop_again {body : Block} {v : UInt8} (cell : c.current? = some v)
    (nonzero : v ≠ 0) (once : ∀ e', Runs body c e' ↔ e' = .finished c') :
    Shows (.loop body rest) c e ↔ Shows (.loop body rest) c' e := by
  constructor
  · rintro ⟨e', h, rfl⟩
    cases h with
    | loopOutside outside => simp [cell] at outside
    | loopDone zero => simp_all
    | loopAgain _ _ first again =>
      cases (once _).mp first
      exact again.shows
    | loopHalts _ _ first => cases (once _).mp first
  · rintro ⟨e', h, rfl⟩
    exact (Runs.loopAgain cell nonzero ((once _).mpr rfl) h).shows

theorem shows_loop_outside {body : Block} (outside : c.current? = none) :
    Shows (.loop body rest) c e ↔ (Ending.halted (c.trap c.pointer) c).unplaced = e := by
  constructor
  · rintro ⟨e', h, rfl⟩
    cases h with
    | loopOutside => rfl
    | loopDone zero => simp [outside] at zero
    | loopAgain cell => simp [outside] at cell
    | loopHalts cell => simp [outside] at cell
  · rintro rfl
    exact (Runs.loopOutside outside body rest).shows

end

/-- The blocks cannot be told apart on any device. -/
def Alike (b b' : Block) : Prop :=
  ∀ (δ : Type) [Device δ] (c : Config δ) (e : Ending δ), Shows b c e ↔ Shows b' c e

namespace Alike

variable {b b' b'' body body' rest rest' : Block}

theorem refl (b : Block) : Alike b b := fun _ _ _ _ => Iff.rfl

theorem symm (h : Alike b b') : Alike b' b := fun δ _ c e => (h δ c e).symm

theorem trans (h : Alike b b') (h' : Alike b' b'') : Alike b b'' :=
  fun δ _ c e => (h δ c e).trans (h' δ c e)

instance : Trans Alike Alike Alike := ⟨trans⟩

theorem step (op : Op) (h : Alike rest rest') : Alike (.step op rest) (.step op rest') := by
  intro δ _ c e
  rw [shows_step, shows_step]
  cases c.act op with
  | finished c' => exact h δ c' e
  | halted why c' => exact Iff.rfl

/-- A body that shows the same in each round gives a loop that shows the same. -/
theorem loop_of_runs [Device δ] {b : Block} {c : Config δ} {e : Ending δ} (h : Runs b c e)
    (hb : b = .loop body rest) (hbody : Alike body body') (hrest : Alike rest rest') :
    Shows (.loop body' rest') c e.unplaced := by
  induction h with
  | nil => cases hb
  | step => cases hb
  | stepHalts => cases hb
  | loopOutside outside =>
    cases hb
    exact (Runs.loopOutside outside body' rest').shows
  | loopDone zero _ next =>
    cases hb
    exact (shows_loop_done zero).mpr ((hrest δ _ _).mp next.shows)
  | loopAgain cell nonzero once again _ ih =>
    cases hb
    obtain ⟨e', hr, he⟩ := (hbody δ _ _).mp once.shows
    cases Ending.eq_finished he
    obtain ⟨e'', hr', he'⟩ := ih rfl
    exact ⟨e'', .loopAgain cell nonzero hr hr', he'⟩
  | loopHalts cell nonzero once =>
    cases hb
    obtain ⟨e', hr, he⟩ := (hbody δ _ _).mp once.shows
    obtain ⟨c', rfl, hc⟩ := Ending.eq_halted he
    exact ⟨_, .loopHalts cell nonzero hr rest', hc⟩

theorem loop (hbody : Alike body body') (hrest : Alike rest rest') :
    Alike (.loop body rest) (.loop body' rest') := by
  intro δ _ c e
  constructor
  · rintro ⟨e', h, rfl⟩
    exact loop_of_runs h rfl hbody hrest
  · rintro ⟨e', h, rfl⟩
    exact loop_of_runs h rfl hbody.symm hrest.symm

/-- Steps that act alike may stand for each other. -/
theorem of_act {op op' : Op}
    (h : ∀ (δ : Type) [Device δ] (c : Config δ), c.act op = c.act op') (rest : Block) :
    Alike (.step op rest) (.step op' rest) := by
  intro δ _ c e
  rw [shows_step, shows_step, h δ c]

end Alike

end TapeLang
