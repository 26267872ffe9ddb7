import TapeLang.Proofs.BigStep
import TapeLang.Run

namespace TapeLang

/-- A request to a device, with the reply to a request for a byte. -/
inductive Exchange where
  | put (b : UInt8)
  | got (b : UInt8)
  | kept
  | broke (reason : Text)
deriving DecidableEq, Repr

/-- A device and what was asked of it so far, in order. -/
structure Traced (δ : Type) where
  device : δ
  trace : List Exchange := []

namespace Traced

variable {δ : Type}

def note (t : Traced δ) (x : Exchange) (device : δ) : Traced δ := ⟨device, t.trace ++ [x]⟩

instance [Device δ] : Device (Traced δ) where
  put b t := t.note (.put b) (Device.put b t.device)
  get t :=
    match Device.get t.device with
    | .byte b d => .byte b (t.note (.got b) d)
    | .keep d => .keep (t.note .kept d)
    | .crash reason d => .crash reason (t.note (.broke reason) d)

end Traced

variable {δ ε : Type}

def Reply.map (f : δ → ε) : Reply δ → Reply ε
  | .byte b d => .byte b (f d)
  | .keep d => .keep (f d)
  | .crash reason d => .crash reason (f d)

/-- The function carries the requests of one device over to another. -/
structure Follows [Device δ] [Device ε] (f : δ → ε) : Prop where
  put : ∀ b d, Device.put b (f d) = f (Device.put b d)
  get : ∀ d, Device.get (f d) = (Device.get d).map f

theorem Traced.follows [Device δ] : Follows (Traced.device : Traced δ → δ) where
  put _ _ := rfl
  get d := by
    simp only [Device.get]
    cases Device.get d.device <;> rfl

namespace Machine

def mapDevice (f : δ → ε) (m : Machine δ) : Machine ε := { m with device := f m.device }

end Machine

def Outcome.mapDevice (f : δ → ε) : Outcome (Machine δ) → Outcome (Machine ε)
  | .done m => .done (m.mapDevice f)
  | .stopped why m => .stopped why (m.mapDevice f)
  | .outOfFuel => .outOfFuel

/-- The trap that a run stopped at. -/
def Outcome.trap? {σ : Type} : Outcome σ → Option Trap
  | .stopped (.trap t) _ => some t
  | _ => none

/-- Replies that say the same, with related devices after them. -/
inductive Reply.Beside (R : δ → ε → Prop) : Reply δ → Reply ε → Prop where
  | byte (b : UInt8) {d : δ} {e : ε} (related : R d e) : Beside R (.byte b d) (.byte b e)
  | keep {d : δ} {e : ε} (related : R d e) : Beside R (.keep d) (.keep e)
  | crash (reason : Text) {d : δ} {e : ε} (related : R d e) :
      Beside R (.crash reason d) (.crash reason e)

/-- Related devices reply alike and stay related. -/
structure InStep [Device δ] [Device ε] (R : δ → ε → Prop) : Prop where
  put : ∀ b d e, R d e → R (Device.put b d) (Device.put b e)
  get : ∀ d e, R d e → (Device.get d).Beside R (Device.get e)

/-- The machine with another device. -/
def Machine.on (m : Machine δ) (e : ε) : Machine ε := { m with device := e }

/-- Outcomes that differ in their devices only, which are related. -/
inductive Outcome.Beside (R : δ → ε → Prop) :
    Outcome (Machine δ) → Outcome (Machine ε) → Prop where
  | done {m : Machine δ} {e : ε} (related : R m.device e) : Beside R (.done m) (.done (m.on e))
  | stopped (why : Stop) {m : Machine δ} {e : ε} (related : R m.device e) :
      Beside R (.stopped why m) (.stopped why (m.on e))
  | outOfFuel : Beside R .outOfFuel .outOfFuel

theorem Follows.inStep [Device δ] [Device ε] {f : δ → ε} (hf : Follows f) :
    InStep fun d e => e = f d where
  put b d e h := by
    subst h
    exact hf.put b d
  get d e h := by
    subst h
    rw [hf.get]
    cases Device.get d with
    | byte b d' => exact .byte b rfl
    | keep d' => exact .keep rfl
    | crash reason d' => exact .crash reason rfl

namespace Machine

variable {R : δ → ε → Prop}

theorem withCell_beside {m : Machine δ} {e : ε} (he : R m.device e) (offset : Int64)
    {f : Fin m.cells.size → Outcome (Machine δ)} {g : Fin m.cells.size → Outcome (Machine ε)}
    (h : ∀ i, (f i).Beside R (g i)) :
    (m.withCell offset f).Beside R ((m.on e).withCell offset g) := by
  unfold withCell
  rw [show (m.on e).locate offset = m.locate offset from rfl]
  cases m.locate offset with
  | ok i => exact h i
  | error t => exact .stopped _ he

theorem perform_beside [Device δ] [Device ε] (hR : InStep R) (op : Op) {m : Machine δ} {e : ε}
    (he : R m.device e) : (m.perform op).Beside R ((m.on e).perform op) := by
  cases op with
  | move delta => exact .done he
  | unknown => exact .stopped _ he
  | add delta offset =>
    apply withCell_beside he
    intro i
    exact .done he
  | clear offset =>
    apply withCell_beside he
    intro i
    exact .done he
  | put offset =>
    apply withCell_beside he
    intro i
    exact .done (hR.put _ _ _ he)
  | get offset =>
    apply withCell_beside he
    intro i
    have hreply := hR.get _ _ he
    simp only [on]
    generalize Device.get m.device = reply, Device.get e = reply' at hreply ⊢
    cases hreply with
    | byte b related => exact .done related
    | keep related => exact .done related
    | crash reason related => exact .stopped _ related

theorem repeatBody_beside (w : Watch) {body : Machine δ → Outcome (Machine δ)}
    {body' : Machine ε → Outcome (Machine ε)}
    (h : ∀ m e, R m.device e → (body m).Beside R (body' (m.on e))) (fuel : Nat) {m : Machine δ}
    {e : ε} (he : R m.device e) :
    (repeatBody w body fuel m).Beside R (repeatBody w body' fuel (m.on e)) := by
  induction fuel generalizing m e with
  | zero => exact .outOfFuel
  | succ fuel ih =>
    simp only [repeatBody]
    apply withCell_beside he
    intro i
    change Outcome.Beside R _ (if m.cells[i] = 0 then _ else _)
    split
    · exact .done he
    · change Outcome.Beside R _ (if w.stops m.enter.iterations = true then _ else _)
      split
      · exact .stopped _ he
      · have hbody := h m.enter e he
        rw [show (m.on e).enter = m.enter.on e from rfl]
        generalize body m.enter = o, body' (m.enter.on e) = o' at hbody ⊢
        cases hbody with
        | done related => exact ih related
        | stopped why related => exact .stopped why related
        | outOfFuel => exact .outOfFuel

/-- Two runs of a block on devices that stay in step differ in nothing else. -/
theorem exec_beside [Device δ] [Device ε] (hR : InStep R) (w : Watch) (fuel : Nat) (b : Block)
    {m : Machine δ} {e : ε} (he : R m.device e) :
    (exec w fuel b m).Beside R (exec w fuel b (m.on e)) := by
  induction b generalizing m e with
  | nil => exact .done he
  | step op rest ih =>
    have hstep := perform_beside hR op (m := m.tick) he
    simp only [exec]
    rw [show (m.on e).tick = m.tick.on e from rfl]
    generalize m.tick.perform op = o, (m.tick.on e).perform op = o' at hstep ⊢
    cases hstep with
    | done related => exact ih related
    | stopped why related => exact .stopped why related
    | outOfFuel => exact .outOfFuel
  | loop body rest ihBody ihRest =>
    have hloop := repeatBody_beside w (fun m e => ihBody (m := m) (e := e)) fuel (m := m.tick) he
    simp only [exec]
    rw [show (m.on e).tick = m.tick.on e from rfl]
    generalize repeatBody w (exec w fuel body) fuel m.tick = o,
      repeatBody w (exec w fuel body) fuel (m.tick.on e) = o' at hloop ⊢
    cases hloop with
    | done related => exact ihRest related
    | stopped why related => exact .stopped why related
    | outOfFuel => exact .outOfFuel

/-- A run on one device is carried over to the other. -/
theorem exec_map [Device δ] [Device ε] {f : δ → ε} (hf : Follows f) (w : Watch) (fuel : Nat)
    (b : Block) (m : Machine δ) :
    exec w fuel b (m.mapDevice f) = (exec w fuel b m).mapDevice f := by
  have h := exec_beside hf.inStep w fuel b (m := m) rfl
  rw [show m.mapDevice f = m.on (f m.device) from rfl]
  generalize exec w fuel b m = o, exec w fuel b (m.on (f m.device)) = o' at h ⊢
  cases h with
  | done related =>
    subst related
    rfl
  | stopped why related =>
    subst related
    rfl
  | outOfFuel => rfl

end Machine

namespace Block

/-- The start of a run with an empty record. -/
def startTraced (tape : Tape) (console : Console) : Machine (Traced Console) :=
  { cells := tape.cells, pointer := tape.pointer, device := { device := console } }

/-- The run of a block with a record of what it asks of the console. -/
def runTraced (fuel : Nat) (w : Watch) (b : Block) (tape : Tape) (console : Console) :
    Outcome (Machine (Traced Console)) :=
  Machine.exec w fuel b (startTraced tape console)

/-- What a run asks of its console, in order; none if some loop needs more fuel. -/
def exchanges? (fuel : Nat) (w : Watch) (b : Block) (tape : Tape) (console : Console) :
    Option (List Exchange) :=
  match b.runTraced fuel w tape console with
  | .done m => some m.device.trace
  | .stopped _ m => some m.device.trace
  | .outOfFuel => none

/-- What a traced run leaves behind, its record aside. -/
def ranOf? : Outcome (Machine (Traced Console)) → Option Ran
  | .done m => some (.ofMachine none (m.mapDevice Traced.device))
  | .stopped why m => some (.ofMachine (some why) (m.mapDevice Traced.device))
  | .outOfFuel => none

/-- Keeping a record changes nothing about a run. -/
theorem runWith_traced (fuel : Nat) (w : Watch) (b : Block) (tape : Tape) (console : Console) :
    b.runWith fuel w tape console = ranOf? (b.runTraced fuel w tape console) := by
  have h := Machine.exec_map Traced.follows w fuel b (startTraced tape console)
  unfold runWith runTraced
  dsimp only
  rw [show ({ cells := tape.cells, pointer := tape.pointer, device := console } : Machine Console)
    = (startTraced tape console).mapDevice Traced.device from rfl, h]
  cases Machine.exec w fuel b (startTraced tape console) <;> rfl

/-- More fuel changes neither what a run leaves behind nor what it asks. -/
theorem runWith_more {fuel fuel' : Nat} (hle : fuel ≤ fuel') {w : Watch} {b : Block} {tape : Tape}
    {console : Console} {r : Ran} (h : b.runWith fuel w tape console = some r) :
    b.runWith fuel' w tape console = some r ∧
      b.exchanges? fuel' w tape console = b.exchanges? fuel w tape console := by
  rw [runWith_traced] at h
  have hsame : b.runTraced fuel' w tape console = b.runTraced fuel w tape console := by
    rcases Machine.exec_within w hle b (startTraced tape console) with hx | hx
    · rw [runTraced, hx] at h
      cases h
    · exact hx.symm
  rw [runWith_traced, exchanges?, exchanges?, hsame]
  exact ⟨h, rfl⟩

end Block

end TapeLang
