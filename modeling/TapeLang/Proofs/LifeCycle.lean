import Mathlib.Algebra.Group.Nat.Defs
import Mathlib.Data.List.GetD
import TapeLang.Native.Region

namespace TapeLang.Native

namespace Region

/-- Clearing the low bits of a word leaves the multiple of the power of two below it. -/
theorem toNat_clearLow (x : BitVec 64) {k : Nat} (hk : k < 64) :
    (x &&& ~~~(BitVec.ofNat 64 (2 ^ k) - 1)).toNat = 2 ^ k * (x.toNat / 2 ^ k) := by
  have hpow : 2 ^ k < 2 ^ 64 := Nat.pow_lt_pow_right (by decide) hk
  have hone : 1 ≤ 2 ^ k := Nat.one_le_two_pow
  have hmask : BitVec.ofNat 64 (2 ^ k) - 1 = BitVec.ofNat 64 (2 ^ k - 1) := by
    apply BitVec.eq_of_toNat_eq
    have hle : (1 : BitVec 64) ≤ BitVec.ofNat 64 (2 ^ k) := by
      rw [BitVec.le_def, BitVec.toNat_ofNat, Nat.mod_eq_of_lt hpow]
      exact hone
    rw [BitVec.toNat_sub_of_le hle, BitVec.toNat_ofNat, BitVec.toNat_ofNat, Nat.mod_eq_of_lt hpow,
      Nat.mod_eq_of_lt (Nat.lt_of_le_of_lt (Nat.sub_le _ _) hpow)]
    rfl
  apply Nat.eq_of_testBit_eq
  intro i
  rw [hmask, BitVec.testBit_toNat, BitVec.getLsbD_and, BitVec.getLsbD_not, BitVec.getLsbD_ofNat,
    Nat.testBit_two_pow_sub_one, Nat.testBit_two_pow_mul, Nat.testBit_div_two_pow]
  by_cases hik : k ≤ i
  · rw [Nat.sub_add_cancel hik, BitVec.testBit_toNat]
    by_cases hi : i < 64
    · simp [hi, hik]
    · simp [hi, BitVec.getLsbD_of_ge x i (Nat.not_lt.mp hi)]
  · have hi : i < 64 := by omega
    simp [hi, hik]
    omega

theorem toNat_of_nonneg {x : Int64} (h : 0 ≤ x) : (x.toBitVec.toNat : Int) = x.toInt := by
  rw [Int64.le_iff_toInt_le, ← Int64.toInt_toBitVec x] at h
  rw [← Int64.toInt_toBitVec x, BitVec.toInt_eq_toNat_of_lt (BitVec.toInt_pos_iff.mp h)]

/-- Rounding a positive length up to pages, before anything is taken for negative. -/
theorem toNat_roundUp {size : Int64} (hsize : 0 ≤ size) (hne : size ≠ 0) {k : Nat} (hk : k < 63) :
    (roundUp size (.ofNat (2 ^ k))).toBitVec.toNat =
      2 ^ k * ((size.toBitVec.toNat + 2 ^ k - 1) / 2 ^ k) := by
  have hpow : 2 ^ k ≤ 2 ^ 62 := Nat.pow_le_pow_right (by decide) (by omega)
  have hone : 1 ≤ 2 ^ k := Nat.one_le_two_pow
  have hnat := toNat_of_nonneg hsize
  have hlt := Int64.toInt_lt size
  -- the sum is taken without a carry out of the word
  have hadd : (size.toBitVec + BitVec.ofNat 64 (2 ^ k)).toNat = size.toBitVec.toNat + 2 ^ k := by
    rw [BitVec.toNat_add, BitVec.toNat_ofNat, Nat.mod_eq_of_lt (by omega : 2 ^ k < 2 ^ 64),
      Nat.mod_eq_of_lt (by omega)]
  have hsum : (size.toBitVec + BitVec.ofNat 64 (2 ^ k) - 1).toNat =
      size.toBitVec.toNat + 2 ^ k - 1 := by
    rw [BitVec.toNat_sub_of_le, hadd]
    · rfl
    · rw [BitVec.le_def, hadd]
      exact Nat.le_trans hone (Nat.le_add_left _ _)
  rw [roundUp, if_neg hne, ← hsum]
  exact toNat_clearLow _ (Nat.lt_of_lt_of_le hk (by decide))

/-- A length that was rounded up and is still positive is a whole number of pages, and no less than
before. -/
theorem roundUp_pages (host : HostMemory) {size : Int64} (hsize : 0 ≤ size)
    (hpos : 0 < roundUp size (.ofNat host.pageSize)) :
    host.pageSize ∣ (roundUp size (.ofNat host.pageSize)).toNatClampNeg ∧
      size.toInt ≤ (roundUp size (.ofNat host.pageSize)).toNatClampNeg := by
  have hk := host.pageBits_lt
  have hone : 1 ≤ 2 ^ host.pageBits := Nat.one_le_two_pow
  rw [show host.pageSize = 2 ^ host.pageBits from Nat.one_shiftLeft _] at hpos ⊢
  by_cases hzero : size = 0
  · have hpow : 2 ^ host.pageBits < 2 ^ 63 := Nat.pow_lt_pow_right (by decide) hk
    rw [roundUp, if_pos hzero, ← Int64.toNat_toInt, Int64.toInt_ofNat_of_lt hpow, hzero]
    exact ⟨Nat.dvd_refl _, Int.natCast_nonneg _⟩
  · rw [← Int64.toNat_toInt, ← toNat_of_nonneg (Int64.le_of_lt hpos), Int.toNat_natCast,
      toNat_roundUp hsize hzero hk]
    refine ⟨Nat.dvd_mul_right _ _, ?_⟩
    have hnat := toNat_of_nonneg hsize
    have hdiv := Nat.div_add_mod (size.toBitVec.toNat + 2 ^ host.pageBits - 1) (2 ^ host.pageBits)
    have hmod := Nat.mod_lt (size.toBitVec.toNat + 2 ^ host.pageBits - 1) hone
    omega

/-- A region that was allocated holds nothing yet and has room for what was asked. -/
theorem allocate_ok {host : HostMemory} {size : Int64} {r : Region}
    (h : allocate size host = .ok r) :
    (∃ base size', r = { base, size := size' }) ∧ host.pageSize ∣ r.size ∧
      size.toInt ≤ r.size := by
  unfold allocate at h
  split at h
  · cases h
  · rename_i hneg
    have hsize : 0 ≤ size := Int64.not_lt.mp hneg
    unfold map at h
    split at h
    · cases h
    · rename_i hpos
      obtain ⟨hpages, hroom⟩ := roundUp_pages host hsize (Int64.not_le.mp hpos)
      split at h
      · cases h
      · cases h
        exact ⟨⟨_, _, rfl⟩, hpages, hroom⟩

end Region

/-- The access that each protection stands for. -/
def Protection.access : Protection → Access
  | released => {}
  | readWrite => { read := true, write := true }
  | readExec => { read := true, execute := true }

/-- A protection stays or goes on: writable to executable, and both to released. -/
inductive Protection.Moves : Protection → Protection → Prop where
  | stay (p : Protection) : Moves p p
  | sealing : Moves readWrite readExec
  | release (p : Protection) : Moves p released

namespace Region

/-- The one who writes the code and the one who runs it hold the same region. -/
inductive Handle where
  | writable
  | executable
deriving DecidableEq, Repr

/-- Something asked of a region through one of its handles. Nobody holds the executable one before
the region is sealed, but no use is made of that. -/
inductive Call where
  | write (code : Text)
  | makeExecutable
  | release (through : Handle)
  | protection (through : Handle)
  | size
  | length
  | address
deriving DecidableEq, Repr

inductive Answer where
  | done
  | refused (why : Refusal)
  | protection (p : Protection)
  | count (n : Nat)
  | address (a : UInt64)
deriving DecidableEq, Repr

/-- The answer to an operation that changes the region unless it is refused. -/
def attempt (r : Region) : Except Refusal Region → Answer × Region
  | .ok r' => (.done, r')
  | .error why => (.refused why, r)

/-- Answers a call. -/
def serve (r : Region) : Call → Answer × Region
  | .write code => r.attempt (r.write code)
  | .makeExecutable => r.attempt r.makeExecutable
  | .release _ => (.done, r.release)
  | .protection _ => (.protection r.protection, r)
  | .size => (.count r.size, r)
  | .length => (.count r.used, r)
  | .address =>
    match r.address with
    | .ok a => (.address a, r)
    | .error why => (.refused why, r)

def after (r : Region) (call : Call) : Region := (r.serve call).2

def afterAll (r : Region) (calls : List Call) : Region := calls.foldl after r

def Call.releases : Call → Bool
  | .release _ => true
  | _ => false

/-- The code that a call stores: none if it writes nothing or is refused. -/
def stored (r : Region) (call : Call) : Text :=
  match call, (r.serve call).1 with
  | .write code, .done => code
  | _, _ => []

/-- All code stored by a sequence of calls, in order. -/
def storedAll (r : Region) : List Call → Text
  | [] => []
  | call :: rest => r.stored call ++ (r.after call).storedAll rest

/-- All that a call can do: store code, seal, release, or leave the region as it is. -/
inductive Step (r : Region) : Call → Text → Region → Prop where
  | write {code : Text} (writable : r.protection = .readWrite)
      (fits : code.length ≤ r.size - r.used) : Step r (.write code) code (r.append code)
  | makeExecutable (writable : r.protection = .readWrite) :
      Step r .makeExecutable [] r.protectExec
  | release (through : Handle) (mapped : r.protection ≠ .released) :
      Step r (.release through) [] r.unmap
  | idle {call : Call} (gone : call.releases = true → r.protection = .released) :
      Step r call [] r

theorem write_ok {r r' : Region} {code : Text} (h : r.write code = .ok r') :
    r.protection = .readWrite ∧ code.length ≤ r.size - r.used ∧ r' = r.append code := by
  unfold write at h
  split at h
  · cases h
  · cases h
  · rename_i hp
    split at h
    · cases h
    · rename_i hroom
      cases h
      exact ⟨hp, Nat.not_lt.mp hroom, rfl⟩

theorem makeExecutable_ok {r r' : Region} (h : r.makeExecutable = .ok r') :
    r.protection = .readWrite ∧ r' = r.protectExec := by
  unfold makeExecutable at h
  split at h
  · cases h
  · cases h
  · rename_i hp
    cases h
    exact ⟨hp, rfl⟩

theorem step_after (r : Region) (call : Call) : Step r call (r.stored call) (r.after call) := by
  cases call with
  | write code =>
    simp only [stored, after, serve]
    cases h : r.write code with
    | error why => exact .idle nofun
    | ok r' =>
      obtain ⟨hp, hroom, rfl⟩ := write_ok h
      exact .write hp hroom
  | makeExecutable =>
    simp only [stored, after, serve]
    cases h : r.makeExecutable with
    | error why => exact .idle nofun
    | ok r' =>
      obtain ⟨hp, rfl⟩ := makeExecutable_ok h
      exact .makeExecutable hp
  | release through =>
    by_cases hp : r.protection = .released
    · simp only [stored, after, serve, release, if_pos hp]
      exact .idle fun _ => hp
    · simp only [stored, after, serve, release, if_neg hp]
      exact .release through hp
  | protection through => exact .idle nofun
  | size => exact .idle nofun
  | length => exact .idle nofun
  | address =>
    simp only [stored, after, serve]
    cases r.address with
    | ok a => exact .idle nofun
    | error why => exact .idle nofun

/-- A refused call leaves everything as it is. -/
theorem after_refused {r : Region} {call : Call} {why : Refusal}
    (h : (r.serve call).1 = .refused why) : r.after call = r := by
  cases call with
  | write code =>
    simp only [after, serve] at h ⊢
    cases hw : r.write code with
    | error why' => rfl
    | ok r' =>
      rw [hw] at h
      cases h
  | makeExecutable =>
    simp only [after, serve] at h ⊢
    cases hw : r.makeExecutable with
    | error why' => rfl
    | ok r' =>
      rw [hw] at h
      cases h
  | release through => cases h
  | protection through => rfl
  | size => rfl
  | length => rfl
  | address =>
    simp only [after, serve]
    cases r.address <;> rfl

theorem moves_after (r : Region) (call : Call) : r.protection.Moves (r.after call).protection := by
  have hstep := step_after r call
  generalize r.stored call = more, r.after call = r' at hstep ⊢
  cases hstep with
  | write writable fits => exact .stay _
  | makeExecutable writable =>
    rw [writable]
    exact .sealing
  | release through mapped => exact .release _
  | idle gone => exact .stay _

/-- What a region of a host is once `code` is stored in it, if `size` bytes were asked for. -/
structure Sound (host : HostMemory) (size : Int64) (code : Text) (r : Region) : Prop where
  access : r.access = r.protection.access
  memory : ∀ i, r.memory i = code.getD i 0
  used : r.used = code.length
  unmaps : r.unmaps = if r.protection = .released then 1 else 0
  mapped : r.protection ≠ .released →
    host.pageSize ∣ r.size ∧ size.toInt ≤ r.size ∧ code.length ≤ r.size

theorem overlay_code {memory : Nat → UInt8} {code : Text} (h : ∀ i, memory i = code.getD i 0)
    (more : Text) (i : Nat) : overlay memory code.length more i = (code ++ more).getD i 0 := by
  unfold overlay
  split
  · rename_i hi
    rw [h, List.getD_append _ _ _ _ hi]
  · rename_i hi
    have hle := Nat.not_lt.mp hi
    rw [List.getD_append_right _ _ _ _ hle, h, List.getD_eq_default _ _ hle]

namespace Sound

variable {host : HostMemory} {size : Int64} {code : Text} {r : Region}

theorem allocated (h : allocate size host = .ok r) : Sound host size [] r := by
  obtain ⟨⟨base, size', rfl⟩, hpages, hroom⟩ := allocate_ok h
  exact ⟨rfl, fun _ => rfl, rfl, rfl, fun _ => ⟨hpages, hroom, Nat.zero_le _⟩⟩

theorem step {call : Call} {more : Text} {r' : Region} (h : Sound host size code r)
    (hstep : Step r call more r') : Sound host size (code ++ more) r' := by
  cases hstep with
  | write writable fits =>
    obtain ⟨hpages, hroom, hcode⟩ := h.mapped (by simp [writable])
    refine ⟨h.access, ?_, ?_, h.unmaps, fun _ => ⟨hpages, hroom, ?_⟩⟩
    · intro i
      change overlay r.memory r.used more i = _
      rw [h.used]
      exact overlay_code h.memory more i
    · simp [append, h.used]
    · have hused := h.used
      rw [List.length_append]
      change _ ≤ r.size
      omega
  | makeExecutable writable =>
    rw [List.append_nil]
    have hmapped : r.protection ≠ .released := by simp [writable]
    refine ⟨rfl, h.memory, h.used, ?_, fun _ => h.mapped hmapped⟩
    rw [protectExec, h.unmaps, if_neg hmapped]
    rfl
  | release through mapped =>
    rw [List.append_nil]
    refine ⟨rfl, h.memory, h.used, ?_, fun hmapped => absurd rfl hmapped⟩
    rw [unmap, h.unmaps, if_neg mapped]
    rfl
  | idle gone =>
    rw [List.append_nil]
    exact h

theorem afterAll (h : Sound host size code r) (calls : List Call) :
    Sound host size (code ++ r.storedAll calls) (r.afterAll calls) := by
  induction calls generalizing r code with
  | nil => simpa [storedAll, Region.afterAll] using h
  | cons call calls ih =>
    rw [storedAll, ← List.append_assoc]
    exact ih (h.step (step_after r call))

/-- A mapped region holds its code and zeros behind it. -/
theorem content (h : Sound host size code r) (hmapped : r.protection ≠ .released) :
    r.content = code ++ List.replicate (r.size - code.length) 0 := by
  obtain ⟨-, -, hcode⟩ := h.mapped hmapped
  apply List.ext_getElem
  · simp [Region.content]
    omega
  · intro i hi hi'
    simp only [Region.content, List.getElem_map, List.getElem_range, h.memory]
    rw [List.getElem_append]
    split
    · rename_i hlt
      simp [List.getD, hlt]
    · rename_i hge
      rw [List.getElem_replicate]
      exact List.getD_eq_default _ _ (Nat.not_lt.mp hge)

/-- Code for which there is room among the bytes asked for is taken. -/
theorem write (h : Sound host size code r) (hp : r.protection = .readWrite) {more : Text}
    (hroom : (code.length + more.length : Int) ≤ size.toInt) :
    (r.serve (.write more)).1 = .done := by
  obtain ⟨-, hsize, -⟩ := h.mapped (by simp [hp])
  have hfits : ¬ more.length > r.size - r.used := by
    rw [h.used]
    omega
  simp only [serve, Region.write, hp, if_neg hfits]
  rfl

end Sound

/-- A region is released once a call has released it. -/
theorem released_after (r : Region) (call : Call) :
    (r.after call).protection = .released ↔
      r.protection = .released ∨ call.releases = true := by
  have hstep := step_after r call
  generalize r.stored call = more, r.after call = r' at hstep ⊢
  cases hstep with
  | write writable fits => simp [append, writable, Call.releases]
  | makeExecutable writable => simp [protectExec, writable, Call.releases]
  | release through mapped => simp [unmap, Call.releases]
  | idle gone =>
    constructor
    · exact .inl
    · rintro (h | h)
      · exact h
      · exact gone h

theorem released_afterAll (r : Region) (calls : List Call) :
    (r.afterAll calls).protection = .released ↔
      r.protection = .released ∨ calls.any Call.releases = true := by
  induction calls generalizing r with
  | nil => simp [afterAll]
  | cons call calls ih =>
    change ((r.after call).afterAll calls).protection = .released ↔ _
    rw [ih, released_after, List.any_cons, Bool.or_eq_true, or_assoc]

/-- An executable region does not change any more before it is released. -/
theorem afterAll_executable {r : Region} (h : r.protection = .readExec) (calls : List Call)
    (hmapped : (r.afterAll calls).protection ≠ .released) : r.afterAll calls = r := by
  induction calls with
  | nil => rfl
  | cons call calls ih =>
    change ((r.after call).afterAll calls).protection ≠ .released at hmapped
    change (r.after call).afterAll calls = r
    have hafter : r.after call = r := by
      have hstep := step_after r call
      generalize r.stored call = more, r.after call = r' at hstep hmapped ⊢
      cases hstep with
      | write writable fits => simp [h] at writable
      | makeExecutable writable => simp [h] at writable
      | release through mapped =>
        rw [Ne, released_afterAll] at hmapped
        exact absurd (.inl rfl) hmapped
      | idle gone => rfl
    rw [hafter] at hmapped ⊢
    exact ih hmapped

/-- Sealing succeeds in a writable region only, and makes it executable. -/
theorem serve_makeExecutable (r : Region) :
    ((r.serve .makeExecutable).1 = .done ↔ r.protection = .readWrite) ∧
      (r.protection = .readWrite → r.after .makeExecutable = r.protectExec) := by
  simp only [after, serve, makeExecutable]
  cases r.protection <;> simp [attempt]

/-- The life of a region, whatever is asked of it through its two handles and in whatever order.
The protection only goes on from writable to executable and from either to released, and nothing is
ever writable and executable. While it is mapped, a region has whole pages, at least as many bytes
as were asked for, and holds the code that was stored and zeros behind it; once it is executable
that stays so, and sealing a writable region makes it executable. A refused call changes nothing, a
writable region takes all the code that it was asked for, and the host gets the mapping back once,
at the first release. -/
theorem life_cycle (host : HostMemory) (size : Int64) (r₀ : Region)
    (hr₀ : allocate size host = .ok r₀) (calls : List Call) :
    let r := r₀.afterAll calls
    let code := r₀.storedAll calls
    (∀ call, r.protection.Moves (r.after call).protection) ∧
    (r.access = r.protection.access ∧ (r.access.write && r.access.execute) = false) ∧
    (r.protection ≠ .released →
      host.pageSize ∣ r.size ∧ size.toInt ≤ r.size ∧ code.length ≤ r.size ∧
      r.content = code ++ List.replicate (r.size - code.length) 0 ∧ r.used = code.length) ∧
    (r.protection = .readExec → ∀ later, (r.afterAll later).protection ≠ .released →
      (r.afterAll later).content = r.content ∧ r.afterAll later = r) ∧
    ((r.serve .makeExecutable).1 = .done ↔ r.protection = .readWrite) ∧
    ((r.serve .makeExecutable).1 = .done → (r.after .makeExecutable).protection = .readExec ∧
      ∀ later, ((r.after .makeExecutable).afterAll later).protection ≠ .released →
        ((r.after .makeExecutable).afterAll later).content = r.content ∧
        ((r.after .makeExecutable).afterAll later).used = r.used) ∧
    (∀ call why, (r.serve call).1 = .refused why → r.after call = r) ∧
    (r.protection = .readWrite → ∀ more : Text, (code.length + more.length : Int) ≤ size.toInt →
      (r.serve (.write more)).1 = .done) ∧
    (r.protection = .released ↔ calls.any Call.releases = true) ∧
    r.unmaps = if calls.any Call.releases then 1 else 0 := by
  intro r code
  have hsound : Sound host size code r := (Sound.allocated hr₀).afterAll calls
  have hreleased : r.protection = .released ↔ calls.any Call.releases = true := by
    obtain ⟨⟨base, size', rfl⟩, -⟩ := allocate_ok hr₀
    simp only [r, released_afterAll, reduceCtorEq, false_or]
  obtain ⟨hdone, hsealed⟩ := serve_makeExecutable r
  refine ⟨moves_after r, ⟨hsound.access, ?_⟩, ?_, ?_, hdone, ?_, fun _ _ => after_refused, ?_,
    hreleased, ?_⟩
  · rw [hsound.access]
    cases r.protection <;> rfl
  · intro hmapped
    obtain ⟨hpages, hroom, hcode⟩ := hsound.mapped hmapped
    exact ⟨hpages, hroom, hcode, hsound.content hmapped, hsound.used⟩
  · intro hexec later hmapped
    rw [afterAll_executable hexec later hmapped]
    exact ⟨rfl, rfl⟩
  · intro h
    rw [hsealed (hdone.mp h)]
    refine ⟨rfl, fun later hmapped => ?_⟩
    rw [afterAll_executable rfl later hmapped]
    exact ⟨rfl, rfl⟩
  · intro hp more hroom
    exact hsound.write hp hroom
  · rw [hsound.unmaps]
    simp only [hreleased]

/-- A host with pages of four bytes. -/
def smallPages : HostMemory := { pageBits := 2, place := fun _ => .ok 64 }

/-- Five bytes take two pages; code that does not fit any more is refused, and so is what comes
after sealing. -/
theorem life_cycle_small :
    ∃ r₀, allocate 5 smallPages = .ok r₀ ∧
      let r := r₀.afterAll [.write [1, 2, 3], .write [4, 5, 6, 7, 8, 9], .write [4, 5]]
      let s := (r.after .makeExecutable).afterAll [.write [6], .length]
      (r.serve .makeExecutable).1 = .done ∧ s.protection = .readExec ∧
        s.content = [1, 2, 3, 4, 5, 0, 0, 0] ∧ r.unmaps = 0 := by
  refine ⟨{ base := 64, size := 8 }, rfl, ?_⟩
  intro r s
  have h := life_cycle smallPages 5 { base := 64, size := 8 } rfl
    [.write [1, 2, 3], .write [4, 5, 6, 7, 8, 9], .write [4, 5]]
  obtain ⟨-, -, hmapped, -, -, hsealed, -, -, -, hunmaps⟩ := h
  have hkept := ((hsealed rfl).2 [.write [6], .length] nofun).1
  exact ⟨rfl, rfl, hkept.trans (hmapped nofun).2.2.2.1, hunmaps⟩

end Region

end TapeLang.Native
