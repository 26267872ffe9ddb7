import Mathlib.Algebra.Group.Int.Defs
import Mathlib.Algebra.Group.Nat.Defs
import TapeLang.Proofs.Trace

namespace TapeLang

variable {δ : Type}

/-- The tape with cells before and behind it; the pointer stands where it stood among its own. -/
def Tape.enlarged (left right : Array UInt8) (t : Tape) : Tape :=
  { cells := left ++ t.cells ++ right, pointer := t.pointer + Int64.ofNat left.size }

def Machine.enlarged (left right : Array UInt8) (m : Machine δ) : Machine δ :=
  { m with cells := left ++ m.cells ++ right, pointer := m.pointer + Int64.ofNat left.size }

/-- An outcome on a tape of some size and the outcome on the enlarged tape. Nothing is said about
what follows a trap: there may be a cell now where there was none. -/
inductive Outcome.Enlarged (left right : Array UInt8) (size : Nat) :
    Outcome (Machine δ) → Outcome (Machine δ) → Prop where
  | done {m : Machine δ} (kept : m.cells.size = size) :
      Enlarged left right size (.done m) (.done (m.enlarged left right))
  | stopped (why : Stop) (m : Machine δ) :
      Enlarged left right size (.stopped why m) (.stopped why (m.enlarged left right))
  | trapped (t : Trap) (m : Machine δ) (o : Outcome (Machine δ)) :
      Enlarged left right size (.stopped (.trap t) m) o
  | outOfFuel : Enlarged left right size .outOfFuel .outOfFuel

namespace Machine

variable {left right : Array UInt8} {size : Nat}

/-- The cell of an index on the enlarged tape. -/
theorem index_lt {m : Machine δ} (i : Fin m.cells.size) :
    left.size + i < (m.enlarged left right).cells.size := by
  have hi := i.isLt
  simp only [enlarged, Array.size_append]
  omega

def shifted (left right : Array UInt8) {m : Machine δ} (i : Fin m.cells.size) :
    Fin (m.enlarged left right).cells.size :=
  ⟨left.size + i, index_lt i⟩

/-- An access that finds its cell finds the same cell on the enlarged tape, since addresses do not
wrap between one end of the tape and the other. -/
theorem locate_enlarged {m : Machine δ} {offset : Int64} {i : Fin m.cells.size}
    (hfit : left.size + m.cells.size + right.size < 2 ^ 63) (h : m.locate offset = .ok i) :
    (m.enlarged left right).locate offset = .ok (shifted left right i) := by
  unfold locate at h
  dsimp only at h
  split at h
  · rename_i hin
    have hi : (m.pointer + offset).toNatClampNeg = i.val := by cases h; rfl
    obtain ⟨hpos, hlt⟩ := hin
    rw [Int64.le_iff_toInt_le, Int64.toInt_zero] at hpos
    have haddress : (m.enlarged left right).pointer + offset =
        m.pointer + offset + Int64.ofNat left.size := by
      simp only [enlarged, Int64.add_assoc, Int64.add_comm offset]
    have hsum : (m.pointer + offset + Int64.ofNat left.size).toInt = left.size + i := by
      rw [Int64.toNatClampNeg] at hi hlt
      rw [Int64.toInt_add, Int64.toInt_ofNat_of_lt (by omega), Int.bmod_eq_of_le] <;> omega
    have hclamp : (m.pointer + offset + Int64.ofNat left.size).toNatClampNeg = left.size + i := by
      rw [Int64.toNatClampNeg, hsum]
      omega
    have hinside : 0 ≤ (m.enlarged left right).pointer + offset ∧
        ((m.enlarged left right).pointer + offset).toNatClampNeg <
          (m.enlarged left right).cells.size := by
      rw [haddress, hclamp, Int64.le_iff_toInt_le, hsum, Int64.toInt_zero]
      exact ⟨by omega, index_lt i⟩
    unfold locate
    dsimp only
    rw [dif_pos hinside]
    simp only [haddress, hclamp, shifted]
  · cases h

theorem getElem_enlarged {m : Machine δ} {i : Fin m.cells.size}
    {j : Fin (m.enlarged left right).cells.size} (hj : j = shifted left right i) :
    (m.enlarged left right).cells[j] = m.cells[i] := by
  subst hj
  simp [enlarged, shifted]

theorem set_enlarged (m : Machine δ) (i : Fin m.cells.size) (b : UInt8) :
    (m.enlarged left right).cells.set (shifted left right i) b (index_lt i) =
      left ++ m.cells.set i b i.isLt ++ right := by
  have hinside : left.size + i < (left ++ m.cells).size := by simp
  simp only [enlarged, shifted]
  rw [Array.set_append_left hinside, Array.set_append_right hinside (Nat.le_add_right _ _)]
  simp only [Nat.add_sub_cancel_left]

theorem withCell_enlarged {m : Machine δ} (hfit : left.size + m.cells.size + right.size < 2 ^ 63)
    (offset : Int64) {f : Fin m.cells.size → Outcome (Machine δ)}
    {g : Fin (m.enlarged left right).cells.size → Outcome (Machine δ)}
    (h : ∀ i, (f i).Enlarged left right m.cells.size (g (shifted left right i))) :
    (m.withCell offset f).Enlarged left right m.cells.size
      ((m.enlarged left right).withCell offset g) := by
  unfold withCell
  cases hl : m.locate offset with
  | ok i =>
    rw [locate_enlarged hfit hl]
    exact h i
  | error t => exact .trapped t m _

theorem perform_enlarged [Device δ] (op : Op) {m : Machine δ}
    (hfit : left.size + m.cells.size + right.size < 2 ^ 63) :
    (m.perform op).Enlarged left right m.cells.size ((m.enlarged left right).perform op) := by
  have hset (i : Fin m.cells.size) (b : UInt8) :
      (m.enlarged left right).setCell (shifted left right i) b =
        (m.setCell i b).enlarged left right := by
    simp only [setCell, set_enlarged]
    rfl
  cases op with
  | move delta =>
    have hmove : { m.enlarged left right with
        pointer := (m.enlarged left right).pointer + delta } =
          ({ m with pointer := m.pointer + delta } : Machine δ).enlarged left right := by
      simp only [enlarged, Int64.add_assoc, Int64.add_comm delta]
    simp only [perform, hmove]
    exact .done rfl
  | unknown => exact .stopped _ _
  | add delta offset =>
    apply withCell_enlarged hfit
    intro i
    rw [getElem_enlarged rfl, hset]
    exact .done (Array.size_set i.isLt)
  | clear offset =>
    apply withCell_enlarged hfit
    intro i
    rw [hset]
    exact .done (Array.size_set i.isLt)
  | put offset =>
    apply withCell_enlarged hfit
    intro i
    rw [getElem_enlarged rfl]
    exact .done rfl
  | get offset =>
    apply withCell_enlarged hfit
    intro i
    rw [show (m.enlarged left right).device = m.device from rfl]
    cases Device.get m.device with
    | byte b device =>
      dsimp only
      rw [set_enlarged]
      exact .done (Array.size_set i.isLt)
    | keep device => exact .done rfl
    | crash reason device => exact .stopped _ _

theorem repeatBody_enlarged (w : Watch) (body : Machine δ → Outcome (Machine δ))
    (hfit : left.size + size + right.size < 2 ^ 63)
    (h : ∀ m : Machine δ, m.cells.size = size →
      (body m).Enlarged left right size (body (m.enlarged left right)))
    (fuel : Nat) {m : Machine δ} (hm : m.cells.size = size) :
    (repeatBody w body fuel m).Enlarged left right size
      (repeatBody w body fuel (m.enlarged left right)) := by
  induction fuel generalizing m with
  | zero => exact .outOfFuel
  | succ fuel ih =>
    subst hm
    simp only [repeatBody]
    apply withCell_enlarged hfit
    intro i
    rw [getElem_enlarged rfl]
    split
    · exact .done rfl
    · change Outcome.Enlarged left right _ _ (if w.stops m.enter.iterations = true then _ else _)
      split
      · exact .stopped _ _
      · have hbody := h m.enter rfl
        rw [show (m.enlarged left right).enter = m.enter.enlarged left right from rfl]
        generalize body m.enter = o, body (m.enter.enlarged left right) = o' at hbody ⊢
        cases hbody with
        | done kept => exact ih kept
        | stopped why m' => exact .stopped why m'
        | trapped t m' o' => exact .trapped t m' _
        | outOfFuel => exact .outOfFuel

/-- A run on the enlarged tape does what the run on the tape does, up to a trap. -/
theorem exec_enlarged [Device δ] (w : Watch) (fuel : Nat) (b : Block)
    (hfit : left.size + size + right.size < 2 ^ 63) {m : Machine δ} (hm : m.cells.size = size) :
    (exec w fuel b m).Enlarged left right size (exec w fuel b (m.enlarged left right)) := by
  induction b generalizing m with
  | nil => exact .done hm
  | step op rest ih =>
    subst hm
    have hstep := perform_enlarged (m := m.tick) op hfit
    simp only [exec]
    rw [show (m.enlarged left right).tick = m.tick.enlarged left right from rfl]
    generalize m.tick.perform op = o, (m.tick.enlarged left right).perform op = o' at hstep ⊢
    cases hstep with
    | done kept => exact ih kept
    | stopped why m' => exact .stopped why m'
    | trapped t m' o' => exact .trapped t m' _
    | outOfFuel => exact .outOfFuel
  | loop body rest ihBody ihRest =>
    have hloop := repeatBody_enlarged w (exec w fuel body) hfit (fun m hm => ihBody hm) fuel
      (m := m.tick) hm
    simp only [exec]
    rw [show (m.enlarged left right).tick = m.tick.enlarged left right from rfl]
    generalize repeatBody w (exec w fuel body) fuel m.tick = o,
      repeatBody w (exec w fuel body) fuel (m.tick.enlarged left right) = o' at hloop ⊢
    cases hloop with
    | done kept => exact ihRest kept
    | stopped why m' => exact .stopped why m'
    | trapped t m' o' => exact .trapped t m' _
    | outOfFuel => exact .outOfFuel

end Machine

namespace Block

/-- A run that ends without a trap ends on every larger tape too, as long as its addresses do not
wrap: the new cells are left alone, the old ones and the pointer among them end as before, and the
requests to the console, the failure and the counts are the same. -/
theorem runWith_enlarged (b : Block) (w : Watch) (tape : Tape) (console : Console) (fuel : Nat)
    (r : Ran) (hr : b.runWith fuel w tape console = some r) (htrap : ∀ t, r.stop ≠ some (.trap t))
    (left right : Array UInt8) (hfit : left.size + tape.cells.size + right.size < 2 ^ 63) :
    ∃ r', b.runWith fuel w (tape.enlarged left right) console = some r' ∧
      r'.tape = r.tape.enlarged left right ∧
      b.exchanges? fuel w (tape.enlarged left right) console = b.exchanges? fuel w tape console ∧
      r'.console = r.console ∧ r'.stop = r.stop ∧ r'.failure = r.failure ∧
      r'.steps = r.steps ∧ r'.iterations = r.iterations := by
  have hrun : (b.runTraced fuel w tape console).Enlarged left right tape.cells.size
      (b.runTraced fuel w (tape.enlarged left right) console) :=
    Machine.exec_enlarged w fuel b hfit (m := startTraced tape console) rfl
  rw [runWith_traced] at hr
  simp only [runWith_traced, exchanges?]
  generalize b.runTraced fuel w tape console = o,
    b.runTraced fuel w (tape.enlarged left right) console = o' at hrun hr ⊢
  cases hrun with
  | done kept =>
    cases hr
    exact ⟨_, rfl, rfl, rfl, rfl, rfl, rfl, rfl, rfl⟩
  | stopped why m =>
    cases hr
    exact ⟨_, rfl, rfl, rfl, rfl, rfl, rfl, rfl, rfl⟩
  | trapped t m o' =>
    cases hr
    exact absurd rfl (htrap t)
  | outOfFuel => cases hr

/-- Leaves the tape and comes back, then counts the first cell down and the second one up. -/
def wandering : Block :=
  step (.move (-9)) (step (.move 9)
    (loop (step (.add (-1) 0) (step (.move 1) (step (.add 1 0) (step (.move (-1)) nil))))
      (step (.move 1) (step (.put 0) nil))))

theorem runWith_enlarged_wandering :
    ∃ r r', wandering.runWith 4 .never { cells := #[2, 0] } {} = some r ∧
      (∀ t, r.stop ≠ some (.trap t)) ∧
      wandering.runWith 4 .never { cells := #[7, 2, 0, 8, 9], pointer := 1 } {} = some r' ∧
      r'.tape = { cells := #[7, 0, 2, 8, 9], pointer := 2 } ∧
      r'.steps = r.steps ∧ r'.iterations = r.iterations := by
  obtain ⟨r, hr, htape, hstop⟩ : ∃ r, wandering.runWith 4 .never { cells := #[2, 0] } {} = some r ∧
      r.tape = { cells := #[0, 2], pointer := 1 } ∧ r.stop = none := ⟨_, rfl, rfl, rfl⟩
  have htrap (t : Trap) : r.stop ≠ some (.trap t) := by simp [hstop]
  obtain ⟨r', hr', htape', -, -, -, -, hsteps, hiterations⟩ :=
    runWith_enlarged wandering .never _ {} 4 r hr htrap #[7] #[8, 9] (by decide)
  rw [htape] at htape'
  exact ⟨r, r', hr, htrap, hr', htape', hsteps, hiterations⟩

end Block

end TapeLang
