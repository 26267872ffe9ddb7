import TapeLang.Machine

namespace TapeLang

/-- What a block works on: the cells, the pointer and the device. -/
structure Config (δ : Type) where
  cells : Array UInt8
  pointer : Int64
  device : δ

inductive Ending (δ : Type) where
  | finished (c : Config δ)
  | halted (why : Stop) (c : Config δ)

namespace Config

variable {δ : Type}

def move (delta : Int64) (c : Config δ) : Config δ := { c with pointer := c.pointer + delta }

/-- The index of the cell at an address, if there is one. -/
def index? (c : Config δ) (address : Int64) : Option Nat :=
  if 0 ≤ address ∧ address.toNatClampNeg < c.cells.size then some address.toNatClampNeg else none

def load (c : Config δ) (i : Nat) : UInt8 := c.cells.getD i 0

def store (c : Config δ) (i : Nat) (b : UInt8) : Config δ :=
  { c with cells := c.cells.setIfInBounds i b }

/-- The value of the cell under the pointer. -/
def current? (c : Config δ) : Option UInt8 := (c.index? c.pointer).map c.load

def trap (c : Config δ) (address : Int64) : Stop :=
  .trap { address, tapeSize := Int64.ofNat c.cells.size }

/-- Works on the cell at an address, or halts if there is none. -/
def access (c : Config δ) (address : Int64) (f : Nat → Ending δ) : Ending δ :=
  match c.index? address with
  | some i => f i
  | none => .halted (c.trap address) c

/-- Takes the reply to a request for a byte. -/
def receive (c : Config δ) (i : Nat) : Reply δ → Ending δ
  | .byte b device => .finished { c.store i b with device }
  | .keep device => .finished { c with device }
  | .crash reason device => .halted (.crash reason) { c with device }

def act [Device δ] (op : Op) (c : Config δ) : Ending δ :=
  match op with
  | .move delta => .finished (c.move delta)
  | .add delta offset => c.access (c.pointer + offset) fun i =>
    .finished (c.store i (c.load i + Machine.lowByte delta))
  | .clear offset => c.access (c.pointer + offset) fun i => .finished (c.store i 0)
  | .put offset => c.access (c.pointer + offset) fun i =>
    .finished { c with device := Device.put (c.load i) c.device }
  | .get offset => c.access (c.pointer + offset) fun i => c.receive i (Device.get c.device)
  | .unknown => .halted .unknownStep c

end Config

/-- How a block ends. A loop tests the cell under the pointer before each run of its body. -/
inductive Runs {δ : Type} [Device δ] : Block → Config δ → Ending δ → Prop where
  | nil (c : Config δ) : Runs .nil c (.finished c)
  | step {op : Op} {rest : Block} {c c' : Config δ} {e : Ending δ}
      (acts : c.act op = .finished c') (next : Runs rest c' e) : Runs (.step op rest) c e
  | stepHalts {op : Op} {c c' : Config δ} {why : Stop}
      (acts : c.act op = .halted why c') (rest : Block) :
      Runs (.step op rest) c (.halted why c')
  | loopOutside {c : Config δ} (outside : c.current? = none) (body rest : Block) :
      Runs (.loop body rest) c (.halted (c.trap c.pointer) c)
  | loopDone {rest : Block} {c : Config δ} {e : Ending δ}
      (zero : c.current? = some 0) (body : Block) (next : Runs rest c e) :
      Runs (.loop body rest) c e
  | loopAgain {body rest : Block} {c c' : Config δ} {e : Ending δ} {b : UInt8}
      (cell : c.current? = some b) (nonzero : b ≠ 0)
      (once : Runs body c (.finished c')) (again : Runs (.loop body rest) c' e) :
      Runs (.loop body rest) c e
  | loopHalts {body : Block} {c c' : Config δ} {b : UInt8} {why : Stop}
      (cell : c.current? = some b) (nonzero : b ≠ 0)
      (once : Runs body c (.halted why c')) (rest : Block) :
      Runs (.loop body rest) c (.halted why c')

/-- The watch never asks a run to stop. -/
def Watch.Quiet (w : Watch) : Prop := ∀ n, w.stops n = false

theorem Watch.quiet_interval (interval : Int64) : Watch.Quiet { interval } := by
  intro n
  rfl

namespace Machine

variable {δ : Type}

def config (m : Machine δ) : Config δ := ⟨m.cells, m.pointer, m.device⟩

@[simp] theorem config_tick (m : Machine δ) : m.tick.config = m.config := rfl

@[simp] theorem config_enter (m : Machine δ) : m.enter.config = m.config := rfl

end Machine

/-- The ending that an outcome stands for; none if the fuel ran out. -/
def Outcome.ending? {δ : Type} : Outcome (Machine δ) → Option (Ending δ)
  | .done m => some (.finished m.config)
  | .stopped why m => some (.halted why m.config)
  | .outOfFuel => none

/-- A step leaves both counts to the machine around it, and is never cancelled. -/
def Outcome.Settled {δ : Type} (m₀ : Machine δ) : Outcome (Machine δ) → Prop
  | .done m => m.steps = m₀.steps ∧ m.iterations = m₀.iterations
  | .stopped why m => m.steps = m₀.steps ∧ m.iterations = m₀.iterations ∧ why ≠ .cancelled
  | .outOfFuel => False

namespace Machine

variable {δ : Type}

theorem locate_ok {m : Machine δ} {offset : Int64} {i : Fin m.cells.size}
    (h : m.locate offset = .ok i) : m.config.index? (m.pointer + offset) = some i.val := by
  unfold locate at h
  dsimp only at h
  split at h
  · rename_i hin
    cases h
    exact if_pos hin
  · cases h

theorem locate_error {m : Machine δ} {offset : Int64} {t : Trap}
    (h : m.locate offset = .error t) :
    m.config.index? (m.pointer + offset) = none ∧
      m.config.trap (m.pointer + offset) = .trap t := by
  unfold locate at h
  dsimp only at h
  split at h
  · cases h
  · rename_i hout
    cases h
    exact ⟨if_neg hout, rfl⟩

theorem store_config (m : Machine δ) (i : Fin m.cells.size) (b : UInt8) :
    m.config.store i b = (m.setCell i b).config := by
  simp [Config.store, config, setCell, Array.setIfInBounds]

/-- Access to a cell by a machine and by its configuration come to the same ending. -/
theorem withCell_ending (m : Machine δ) (offset : Int64)
    (f : Fin m.cells.size → Outcome (Machine δ)) (g : Nat → Ending δ)
    (h : ∀ i, (f i).ending? = some (g i)) :
    (m.withCell offset f).ending? = some (m.config.access (m.pointer + offset) g) := by
  unfold withCell Config.access
  cases hl : m.locate offset with
  | ok i => simp only [locate_ok hl, h]
  | error t =>
    obtain ⟨hn, ht⟩ := locate_error hl
    simp only [hn, ht, Outcome.ending?]

/-- A machine performs a step as its configuration does. -/
theorem perform_ending [Device δ] (op : Op) (m : Machine δ) :
    (m.perform op).ending? = some (m.config.act op) := by
  cases op with
  | move delta => rfl
  | add delta offset =>
    apply withCell_ending
    intro i
    have hload : m.cells[i] = m.config.load i := Array.getElem_eq_getD 0
    rw [← hload, store_config]
    rfl
  | clear offset =>
    apply withCell_ending
    intro i
    rw [store_config]
    rfl
  | put offset =>
    apply withCell_ending
    intro i
    have hload : m.cells[i] = m.config.load i := Array.getElem_eq_getD 0
    rw [← hload]
    rfl
  | get offset =>
    apply withCell_ending
    intro i
    change _ = some (m.config.receive i (Device.get m.device))
    cases Device.get m.device with
    | byte b device =>
      simp only [Config.receive, store_config]
      rfl
    | keep device => rfl
    | crash reason device => rfl
  | unknown => rfl

theorem withCell_settled {m : Machine δ} {offset : Int64}
    {f : Fin m.cells.size → Outcome (Machine δ)} (h : ∀ i, (f i).Settled m) :
    (m.withCell offset f).Settled m := by
  unfold withCell
  cases m.locate offset with
  | ok i => exact h i
  | error t => exact ⟨rfl, rfl, Stop.noConfusion⟩

theorem perform_settled [Device δ] (op : Op) (m : Machine δ) : (m.perform op).Settled m := by
  cases op with
  | move delta => exact ⟨rfl, rfl⟩
  | add delta offset => exact withCell_settled fun _ => ⟨rfl, rfl⟩
  | clear offset => exact withCell_settled fun _ => ⟨rfl, rfl⟩
  | put offset => exact withCell_settled fun _ => ⟨rfl, rfl⟩
  | get offset =>
    apply withCell_settled
    intro i
    cases Device.get m.device with
    | byte b d => exact ⟨rfl, rfl⟩
    | keep d => exact ⟨rfl, rfl⟩
    | crash reason d => exact ⟨rfl, rfl, Stop.noConfusion⟩
  | unknown => exact ⟨rfl, rfl, Stop.noConfusion⟩

theorem current_config (m : Machine δ) (i : Fin m.cells.size) (h : m.locate 0 = .ok i) :
    m.config.current? = some (m.config.load i) := by
  have hi := locate_ok h
  rw [Int64.add_zero] at hi
  change (m.config.index? m.pointer).map m.config.load = _
  rw [hi, Option.map_some]

/-- One round of a loop that nobody cancels. -/
theorem repeatBody_succ {w : Watch} (hw : w.Quiet) (body : Machine δ → Outcome (Machine δ))
    (fuel : Nat) (m : Machine δ) :
    repeatBody w body (fuel + 1) m =
      match m.config.current? with
      | none => .stopped (m.config.trap m.pointer) m
      | some b =>
        if b = 0 then .done m
        else
          match body m.enter with
          | .done m => repeatBody w body fuel m
          | outcome => outcome := by
  simp only [repeatBody, withCell]
  cases hl : m.locate 0 with
  | error t =>
    obtain ⟨hn, ht⟩ := locate_error hl
    rw [Int64.add_zero] at hn ht
    simp only [Config.current?, ht]
    rw [show m.config.pointer = m.pointer from rfl, hn]
    rfl
  | ok i =>
    have hload : m.cells[i] = m.config.load i := Array.getElem_eq_getD 0
    by_cases hz : m.config.load i = 0
    · simp only [current_config m i hl, hload, hz, ↓reduceIte]
    · cases body m.enter <;>
        simp only [current_config m i hl, hload, hz, hw m.enter.iterations, Bool.false_eq_true,
          ↓reduceIte]

/-- The outcome was reached, or else the fuel ran out. -/
def Within (o o' : Outcome (Machine δ)) : Prop := o = .outOfFuel ∨ o = o'

/-- A loop reaches no other outcome when its body is given more fuel and so is the loop. -/
theorem repeatBody_within (w : Watch) {f g : Machine δ → Outcome (Machine δ)}
    (hfg : ∀ m, Within (f m) (g m)) {n n' : Nat} (hn : n ≤ n') (m : Machine δ) :
    Within (repeatBody w f n m) (repeatBody w g n' m) := by
  induction n generalizing n' m with
  | zero => exact .inl rfl
  | succ n ih =>
    obtain ⟨k, rfl⟩ : ∃ k, n' = k + 1 := ⟨n' - 1, by omega⟩
    simp only [repeatBody, withCell]
    cases m.locate 0 with
    | error t => exact .inr rfl
    | ok i =>
      dsimp only
      split
      · exact .inr rfl
      · split
        · exact .inr rfl
        · rcases hfg m.enter with hf | hf
          · rw [hf]
            exact .inl rfl
          · rw [hf]
            cases g m.enter with
            | done m' => exact ih (by omega) m'
            | stopped why m' => exact .inr rfl
            | outOfFuel => exact .inr rfl

/-- More fuel never changes an outcome that was reached. -/
theorem exec_within [Device δ] (w : Watch) {fuel fuel' : Nat} (hle : fuel ≤ fuel') (b : Block)
    (m : Machine δ) : Within (exec w fuel b m) (exec w fuel' b m) := by
  induction b generalizing m with
  | nil => exact .inr rfl
  | step op rest ih =>
    simp only [exec]
    cases m.tick.perform op with
    | done m' => exact ih m'
    | stopped why m' => exact .inr rfl
    | outOfFuel => exact .inr rfl
  | loop body rest ihBody ihRest =>
    simp only [exec]
    rcases repeatBody_within w ihBody hle m.tick with hr | hr
    · rw [hr]
      exact .inl rfl
    · rw [hr]
      cases repeatBody w (exec w fuel' body) fuel' m.tick with
      | done m' => exact ihRest m'
      | stopped why m' => exact .inr rfl
      | outOfFuel => exact .inr rfl

theorem exec_more [Device δ] {w : Watch} {fuel fuel' : Nat} (hle : fuel ≤ fuel') {b : Block}
    {m : Machine δ} {e : Ending δ} (h : (exec w fuel b m).ending? = some e) :
    (exec w fuel' b m).ending? = some e := by
  rcases exec_within w hle b m with hx | hx
  · rw [hx] at h
    cases h
  · rw [← hx, h]

/-- A loop and what follows it, from a test of its cell on. -/
def resume [Device δ] (w : Watch) (fuel tests : Nat) (body rest : Block) (m : Machine δ) :
    Outcome (Machine δ) :=
  match repeatBody w (exec w fuel body) tests m with
  | .done m => exec w fuel rest m
  | outcome => outcome

theorem resume_more [Device δ] {w : Watch} {fuel fuel' tests tests' : Nat} (hf : fuel ≤ fuel')
    (ht : tests ≤ tests') {body rest : Block} {m : Machine δ} {e : Ending δ}
    (h : (resume w fuel tests body rest m).ending? = some e) :
    (resume w fuel' tests' body rest m).ending? = some e := by
  unfold resume at h ⊢
  rcases repeatBody_within w (exec_within w hf body) ht m with hr | hr
  · rw [hr] at h
    cases h
  · rw [← hr]
    cases hm : repeatBody w (exec w fuel body) tests m with
    | done m' =>
      rw [hm] at h
      exact exec_more hf h
    | stopped why m' =>
      rw [hm] at h
      exact h
    | outOfFuel =>
      rw [hm] at h
      cases h

/-- Whatever a loop of the machine comes to, the relation says so too. -/
theorem runs_of_resume [Device δ] {w : Watch} (hw : w.Quiet) {fuel : Nat} {body rest : Block}
    (hbody : ∀ (m : Machine δ) e, (exec w fuel body m).ending? = some e → Runs body m.config e)
    (hrest : ∀ (m : Machine δ) e, (exec w fuel rest m).ending? = some e → Runs rest m.config e)
    (tests : Nat) (m : Machine δ) (e : Ending δ)
    (h : (resume w fuel tests body rest m).ending? = some e) :
    Runs (.loop body rest) m.config e := by
  induction tests generalizing m with
  | zero => cases h
  | succ n ih =>
    simp only [resume, repeatBody_succ hw] at h
    cases hc : m.config.current? with
    | none =>
      simp only [hc, Outcome.ending?, Option.some.injEq] at h
      subst e
      exact .loopOutside hc body rest
    | some b =>
      simp only [hc] at h
      by_cases hb : b = 0
      · subst b
        simp only [if_true] at h
        exact .loopDone hc body (hrest m e h)
      · simp only [hb, if_false] at h
        cases hm : exec w fuel body m.enter with
        | done m' =>
          simp only [hm] at h
          have once := hbody m.enter (.finished m'.config) (by rw [hm]; rfl)
          exact .loopAgain hc hb once (ih m' h)
        | stopped why m' =>
          simp only [hm, Outcome.ending?, Option.some.injEq] at h
          subst e
          exact .loopHalts hc hb (hbody m.enter (.halted why m'.config) (by rw [hm]; rfl)) rest
        | outOfFuel => simp [hm, Outcome.ending?] at h

theorem runs_of_exec [Device δ] {w : Watch} (hw : w.Quiet) {fuel : Nat} (b : Block)
    (m : Machine δ) (e : Ending δ) (h : (exec w fuel b m).ending? = some e) :
    Runs b m.config e := by
  induction b generalizing m e with
  | nil =>
    cases h
    exact .nil m.config
  | step op rest ih =>
    have hp := perform_ending op m.tick
    simp only [exec] at h
    cases hm : m.tick.perform op with
    | done m' =>
      simp only [hm, Outcome.ending?, Option.some.injEq] at h hp
      exact .step hp.symm (ih m' e h)
    | stopped why m' =>
      simp only [hm, Outcome.ending?, Option.some.injEq] at h hp
      subst e
      exact .stepHalts hp.symm rest
    | outOfFuel => simp [hm, Outcome.ending?] at h
  | loop body rest ihBody ihRest => exact runs_of_resume hw ihBody ihRest fuel m.tick e h

/-- A block from where its next node is reached; a loop at its head has been counted already. -/
def proceed [Device δ] (w : Watch) (fuel : Nat) : Block → Machine δ → Outcome (Machine δ)
  | .loop body rest, m => resume w fuel fuel body rest m
  | b, m => exec w fuel b m

theorem exec_of_proceed [Device δ] {w : Watch} {b : Block} {c : Config δ} {e : Ending δ}
    (h : ∀ m : Machine δ, m.config = c → ∃ fuel, (proceed w fuel b m).ending? = some e)
    (m : Machine δ) (hm : m.config = c) : ∃ fuel, (exec w fuel b m).ending? = some e := by
  cases b with
  | nil => exact h m hm
  | step op rest => exact h m hm
  | loop body rest => exact h m.tick hm

/-- Every ending of the relation is reached by the machine with enough fuel. -/
theorem proceed_of_runs [Device δ] {w : Watch} (hw : w.Quiet) {b : Block} {c : Config δ}
    {e : Ending δ} (h : Runs b c e) :
    ∀ m : Machine δ, m.config = c → ∃ fuel, (proceed w fuel b m).ending? = some e := by
  induction h with
  | nil c =>
    intro m hm
    exact ⟨0, by rw [← hm]; rfl⟩
  | @step op rest c c' e acts next ih =>
    intro m hm
    have hp := perform_ending op m.tick
    rw [config_tick, hm, acts] at hp
    cases ho : m.tick.perform op with
    | done m' =>
      simp only [ho, Outcome.ending?, Option.some.injEq, Ending.finished.injEq] at hp
      obtain ⟨fuel, hf⟩ := exec_of_proceed ih m' hp
      exact ⟨fuel, by simpa only [proceed, exec, ho] using hf⟩
    | stopped why m' => simp [ho, Outcome.ending?] at hp
    | outOfFuel => simp [ho, Outcome.ending?] at hp
  | @stepHalts op c c' why acts rest =>
    intro m hm
    have hp := perform_ending op m.tick
    rw [config_tick, hm, acts] at hp
    refine ⟨0, ?_⟩
    simp only [proceed, exec]
    cases ho : m.tick.perform op with
    | done m' => simp [ho, Outcome.ending?] at hp
    | stopped why' m' => simpa only [ho] using hp
    | outOfFuel => simp [ho, Outcome.ending?] at hp
  | loopOutside outside body rest =>
    intro m hm
    refine ⟨1, ?_⟩
    simp only [proceed, resume, repeatBody_succ hw, hm, outside, Outcome.ending?]
    rw [← hm]
    rfl
  | loopDone zero body next ih =>
    intro m hm
    obtain ⟨fuel, hf⟩ := exec_of_proceed ih m hm
    refine ⟨fuel + 1, ?_⟩
    simp only [proceed, resume, repeatBody_succ hw, hm, zero, if_true]
    exact exec_more (Nat.le_succ fuel) hf
  | @loopAgain body rest c c' e b cell nonzero once again ihOnce ihAgain =>
    intro m hm
    obtain ⟨fuel, hf⟩ := exec_of_proceed ihOnce m.enter hm
    cases ho : exec w fuel body m.enter with
    | stopped why m' => simp [ho, Outcome.ending?] at hf
    | outOfFuel => simp [ho, Outcome.ending?] at hf
    | done m' =>
      simp only [ho, Outcome.ending?, Option.some.injEq, Ending.finished.injEq] at hf
      obtain ⟨fuel', hf'⟩ := ihAgain m' hf
      -- one more test than the rest of the loop takes, and enough fuel for both
      have hbody : exec w (fuel + fuel' + 1) body m.enter = .done m' := by
        rcases exec_within w (show fuel ≤ fuel + fuel' + 1 by omega) body m.enter with hx | hx
        · rw [ho] at hx
          cases hx
        · rw [← hx, ho]
      refine ⟨fuel + fuel' + 1, ?_⟩
      simp only [proceed, resume, repeatBody_succ hw, hm, cell, nonzero, if_false, hbody]
      exact resume_more (by omega) (by omega) hf'
  | @loopHalts body c c' b why cell nonzero once rest ihOnce =>
    intro m hm
    obtain ⟨fuel, hf⟩ := exec_of_proceed ihOnce m.enter hm
    refine ⟨fuel + 1, ?_⟩
    have hbody := exec_more (Nat.le_succ fuel) hf
    simp only [proceed, resume, repeatBody_succ hw, hm, cell, nonzero, if_false]
    cases ho : exec w (fuel + 1) body m.enter with
    | done m' => simp [ho, Outcome.ending?] at hbody
    | stopped why' m' => simpa only [ho] using hbody
    | outOfFuel => simp [ho, Outcome.ending?] at hbody

/-- The machine reaches an ending on some fuel exactly when the relation has it. -/
theorem exec_iff_runs [Device δ] {w : Watch} (hw : w.Quiet) (b : Block) (m : Machine δ)
    (e : Ending δ) : (∃ fuel, (exec w fuel b m).ending? = some e) ↔ Runs b m.config e := by
  constructor
  · rintro ⟨fuel, h⟩
    exact runs_of_exec hw b m e h
  · intro h
    exact exec_of_proceed (proceed_of_runs hw h) m rfl

end Machine

/-- A block ends in at most one way. -/
theorem Runs.unique {δ : Type} [Device δ] {b : Block} {c : Config δ} {e e' : Ending δ}
    (h : Runs b c e) (h' : Runs b c e') : e = e' := by
  let m : Machine δ := { cells := c.cells, pointer := c.pointer, device := c.device }
  have quiet := Watch.quiet_interval 0
  obtain ⟨fuel, hf⟩ := (Machine.exec_iff_runs quiet b m e).mpr h
  obtain ⟨fuel', hf'⟩ := (Machine.exec_iff_runs quiet b m e').mpr h'
  have hmax := Machine.exec_more (Nat.le_max_left fuel fuel') hf
  have hmax' := Machine.exec_more (Nat.le_max_right fuel fuel') hf'
  exact Option.some.inj (hmax.symm.trans hmax')

end TapeLang
