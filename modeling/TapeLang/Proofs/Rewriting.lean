import TapeLang.Optimize
import TapeLang.Proofs.Alike
import Mathlib.Data.Int.GCD
import Mathlib.Data.Nat.Prime.Basic

namespace TapeLang

namespace Machine

theorem lowByte_toNat (d : Int64) : ((lowByte d).toNat : Int) = d.toInt % 256 := by
  have h : (lowByte d).toNat = d.toBitVec.toNat % 256 := by
    simp [lowByte]
    rfl
  have hi : d.toInt = if 2 * d.toBitVec.toNat < 2 ^ 64 then (d.toBitVec.toNat : Int)
      else (d.toBitVec.toNat : Int) - (2 ^ 64 : Nat) := BitVec.toInt_eq_toNat_cond d.toBitVec
  rw [h, hi]
  split <;> omega

theorem lowByte_add (a b : Int64) : lowByte (a + b) = lowByte a + lowByte b := by
  simp [lowByte]

theorem lowByte_mod (d : Int64) : lowByte (d % 256) = lowByte d := by
  rw [← UInt8.toNat_inj]
  have hd := lowByte_toNat d
  have hm := lowByte_toNat (d % 256)
  rw [Int64.toInt_mod, show (256 : Int64).toInt = 256 from rfl, Int.tmod_eq_emod] at hm
  split at hm <;> omega

/-- Reducing a delta to a byte does not change what it adds to a cell. -/
theorem lowByte_byteDelta (d : Int64) : lowByte (byteDelta d) = lowByte d := by
  have h : lowByte ((d % 256 + 256) % 256) = lowByte d := by
    rw [lowByte_mod, lowByte_add, lowByte_mod, show lowByte 256 = 0 from rfl, UInt8.add_zero]
  unfold byteDelta
  dsimp only
  split
  · rw [Int64.sub_eq_add_neg, lowByte_add, h, show lowByte (-256) = 0 from rfl, UInt8.add_zero]
  · exact h

theorem lowByte_odd {d : Int64} (h : d % 2 ≠ 0) : (lowByte d).toNat % 2 = 1 := by
  have hd : d.toInt % 2 ≠ 0 := by
    intro hz
    apply h
    rw [← Int64.toInt_inj, Int64.toInt_mod, show (2 : Int64).toInt = 2 from rfl,
      Int.tmod_eq_emod, if_pos (.inr (Int.dvd_of_emod_eq_zero hz)), hz]
    rfl
  have := lowByte_toNat d
  omega

end Machine

namespace Config

variable {δ : Type} {c : Config δ} {i : Nat} {address : Int64}

theorem lt_of_index (h : c.index? address = some i) : i < c.cells.size := by
  unfold index? at h
  split at h
  · cases h
    rename_i hin
    exact hin.2
  · cases h

theorem load_store (h : i < c.cells.size) (b : UInt8) : (c.store i b).load i = b := by
  simp [load, store, Array.getD, h]

theorem store_store (i : Nat) (a b : UInt8) : (c.store i a).store i b = c.store i b := by
  simp [store]

theorem store_load (h : i < c.cells.size) : c.store i (c.load i) = c := by
  have hs : c.cells.setIfInBounds i c.cells[i] = c.cells := by
    rw [Array.setIfInBounds, dif_pos h, Array.set_getElem_self]
  simp [store, load, Array.getD, h, hs]

@[simp] theorem pointer_store (j : Nat) (b : UInt8) : (c.store j b).pointer = c.pointer := rfl

@[simp] theorem size_store (j : Nat) (b : UInt8) :
    (c.store j b).cells.size = c.cells.size := by
  simp [store]

@[simp] theorem index_store (j : Nat) (b : UInt8) :
    (c.store j b).index? address = c.index? address := by
  simp [index?, store]

@[simp] theorem index_move (delta : Int64) :
    (c.move delta).index? address = c.index? address := rfl

theorem move_move (a b : Int64) : (c.move a).move b = c.move (a + b) := by
  simp [move, Int64.add_assoc]

theorem move_zero : c.move 0 = c := by
  simp [move]

end Config

/-- The ending with its last state changed. -/
def Ending.map {δ : Type} (f : Config δ → Config δ) : Ending δ → Ending δ
  | .finished c => .finished (f c)
  | .halted why c => .halted why (f c)

/-- Goes on from where a step finished. -/
def Ending.andThen {δ : Type} (f : Config δ → Ending δ) : Ending δ → Ending δ
  | .finished c => f c
  | .halted why c => .halted why c

namespace Config

variable {δ : Type} {c : Config δ}

theorem access_move (delta address : Int64) {f g : Nat → Ending δ}
    (h : ∀ i, f i = (g i).map (move delta)) :
    (c.move delta).access address f = (c.access address g).map (move delta) := by
  unfold access
  rw [index_move]
  cases c.index? address with
  | some i => exact h i
  | none => rfl

/-- A step after a move is the step at the sum of both, and then the move. -/
theorem act_move [Device δ] {op : Op} {offset : Int64} (h : op.offset? = some offset)
    (delta : Int64) :
    (c.move delta).act op = (c.act (op.withOffset (delta + offset))).map (move delta) := by
  cases op with
  | move _ => cases h
  | unknown => cases h
  | add d o =>
    cases h
    simp only [act, Op.withOffset, ← Int64.add_assoc]
    exact access_move delta _ fun i => rfl
  | clear o =>
    cases h
    simp only [act, Op.withOffset, ← Int64.add_assoc]
    exact access_move delta _ fun i => rfl
  | put o =>
    cases h
    simp only [act, Op.withOffset, ← Int64.add_assoc]
    exact access_move delta _ fun i => rfl
  | get o =>
    cases h
    simp only [act, Op.withOffset, ← Int64.add_assoc]
    refine access_move delta _ fun i => ?_
    change (c.move delta).receive i (Device.get c.device) = _
    cases Device.get c.device <;> rfl

theorem access_andThen {address : Int64} {f : Nat → Config δ} {g : Config δ → Ending δ}
    {h : Nat → Ending δ} (hfg : ∀ i, c.index? address = some i → g (f i) = h i) :
    (c.access address fun i => .finished (f i)).andThen g = c.access address h := by
  unfold access
  cases hi : c.index? address with
  | some i => exact hfg i hi
  | none => rfl

theorem act_byteDelta [Device δ] (delta offset : Int64) :
    c.act (.add (byteDelta delta) offset) = c.act (.add delta offset) := by
  simp only [act, Machine.lowByte_byteDelta]

/-- Two additions to one cell are one. -/
theorem act_add_add [Device δ] (a b offset : Int64) :
    (c.act (.add a offset)).andThen (act (.add b offset)) = c.act (.add (a + b) offset) := by
  apply access_andThen
  intro i hi
  simp only [act, access, pointer_store, index_store, hi, load_store (lt_of_index hi), store_store,
    Machine.lowByte_add, UInt8.add_assoc]

/-- What was added to a cell is lost when the cell is cleared. -/
theorem act_add_clear [Device δ] (a offset : Int64) :
    (c.act (.add a offset)).andThen (act (.clear offset)) = c.act (.clear offset) := by
  apply access_andThen
  intro i hi
  simp only [act, access, pointer_store, index_store, hi, store_store]

end Config

namespace Alike

open Machine

theorem move_move (a b : Int64) (rest : Block) :
    Alike (.step (.move a) (.step (.move b) rest)) (.step (.move (a + b)) rest) := by
  intro δ _ c e
  rw [shows_move, shows_move, shows_move, Config.move_move]

theorem move_zero (rest : Block) : Alike (.step (.move 0) rest) rest := by
  intro δ _ c e
  rw [shows_move, Config.move_zero]

/-- A move passes over a step that touches a cell. -/
theorem move_step {op : Op} {offset : Int64} (h : op.offset? = some offset) (delta : Int64)
    (rest : Block) :
    Alike (.step (.move delta) (.step op rest))
      (.step (op.withOffset (delta + offset)) (.step (.move delta) rest)) := by
  intro δ _ c e
  rw [shows_move, shows_step, shows_step, Config.act_move h]
  cases c.act (op.withOffset (delta + offset)) with
  | finished c' => exact shows_move.symm
  | halted why c' => exact Iff.rfl

theorem add_byteDelta (delta offset : Int64) (rest : Block) :
    Alike (.step (.add (byteDelta delta) offset) rest) (.step (.add delta offset) rest) := by
  apply of_act
  intro δ _ c
  exact Config.act_byteDelta delta offset

theorem add_add (a b offset : Int64) (rest : Block) :
    Alike (.step (.add a offset) (.step (.add b offset) rest))
      (.step (.add (a + b) offset) rest) := by
  intro δ _ c e
  rw [shows_step, shows_step, ← Config.act_add_add]
  cases c.act (.add a offset) with
  | finished c' => exact shows_step
  | halted why c' => exact Iff.rfl

/-- An odd byte has a multiple that undoes any other byte. -/
theorem exists_multiple {b : UInt8} (hb : b.toNat % 2 = 1) (v : UInt8) :
    ∃ k : Nat, (v.toNat + k * b.toNat) % 256 = 0 := by
  have hc : Nat.Coprime b.toNat 256 := by
    rw [show 256 = 2 ^ 8 from rfl]
    exact Nat.Coprime.pow_right 8 (Nat.coprime_two_right.mpr (Nat.odd_iff.mpr hb))
  obtain ⟨j, -, hj⟩ := Nat.exists_mul_mod_eq_one_of_coprime hc (by decide)
  refine ⟨j * (256 - v.toNat), ?_⟩
  have hv := v.toNat_lt
  have hm : j * (256 - v.toNat) * b.toNat % 256 = (256 - v.toNat) % 256 := by
    rw [Nat.mul_right_comm, Nat.mul_mod, Nat.mul_comm j, hj, Nat.one_mul, Nat.mod_mod]
  rw [Nat.add_mod, hm]
  omega

/-- One round of a clearing loop. -/
theorem clearing_round {δ : Type} [Device δ] {c : Config δ} {i : Nat} (delta : Int64)
    (hi : c.index? c.pointer = some i) (e : Ending δ) :
    Runs (.step (.add delta 0) .nil) c e ↔
      e = .finished (c.store i (c.load i + lowByte delta)) := by
  have hact : c.act (.add delta 0) = .finished (c.store i (c.load i + lowByte delta)) := by
    simp [Config.act, Config.access, hi]
  constructor
  · intro h
    cases h with
    | step acts next =>
      cases next
      exact acts.symm.trans hact
    | stepHalts acts => simp [hact] at acts
  · rintro rfl
    exact .step hact (.nil _)

/-- The rounds of a clearing loop, by the number that would bring its cell to zero. -/
theorem clearing_rounds {δ : Type} [Device δ] (delta : Int64) (rest : Block) {i : Nat}
    (k : Nat) (c : Config δ) (hi : c.index? c.pointer = some i)
    (hk : ((c.load i).toNat + k * (lowByte delta).toNat) % 256 = 0) (e : Ending δ) :
    Shows (.loop (.step (.add delta 0) .nil) rest) c e ↔ Shows rest (c.store i 0) e := by
  induction k generalizing c with
  | zero =>
    have hz : c.load i = 0 := by
      rw [← UInt8.toNat_inj, UInt8.toNat_zero]
      have := (c.load i).toNat_lt
      omega
    rw [shows_loop_done (by simp [Config.current?, hi, hz]), ← hz,
      Config.store_load (Config.lt_of_index hi)]
  | succ k ih =>
    have hcell : c.current? = some (c.load i) := by simp [Config.current?, hi]
    by_cases hz : c.load i = 0
    · rw [shows_loop_done (hz ▸ hcell), ← hz, Config.store_load (Config.lt_of_index hi)]
    · have hload := Config.load_store (Config.lt_of_index hi) (c.load i + lowByte delta)
      rw [shows_loop_again hcell hz (clearing_round delta hi),
        ih (c.store i (c.load i + lowByte delta)) (by simpa using hi) ?_, Config.store_store]
      rw [hload, UInt8.toNat_add]
      rw [Nat.add_mul, Nat.one_mul] at hk
      omega

/-- A loop that adds an odd number to its cell clears the cell. -/
theorem clearing {delta : Int64} (h : delta % 2 ≠ 0) (rest : Block) :
    Alike (.loop (.step (.add delta 0) .nil) rest) (.step (.clear 0) rest) := by
  intro δ _ c e
  rw [shows_step]
  simp only [Config.act, Config.access, Int64.add_zero]
  cases hi : c.index? c.pointer with
  | none => exact shows_loop_outside (by simp [Config.current?, hi])
  | some i =>
    obtain ⟨k, hk⟩ := exists_multiple (lowByte_odd h) (c.load i)
    exact clearing_rounds delta rest k c hi hk e

end Alike

end TapeLang
