import TapeLang.Native.Session
import TapeLang.Proofs.Delivery
import TapeLang.Proofs.Steps
import TapeLang.Proofs.Trace

namespace TapeLang

namespace Reader

/-- No step of the stream crashes. -/
def Steady (r : Reader) : Prop := ∀ n reason, r.script n ≠ .crash reason

/-- A steady stream does not crash and stays the same stream. -/
theorem fill_steady (n : Nat) {r : Reader} (hr : r.Steady) :
    ∃ r', r.fill n = .ok r' ∧ r'.script = r.script := by
  induction n generalizing r with
  | zero => exact ⟨_, rfl, rfl⟩
  | succ n ih =>
    have hcall : ∃ e r', r.call = .ok (e, r') ∧ r'.script = r.script := by
      unfold call
      cases hs : r.script r.next with
      | crash reason => exact absurd hs (hr r.next reason)
      | deliver bytes after =>
        dsimp only
        split
        · exact ⟨_, _, rfl, rfl⟩
        · exact ⟨_, _, rfl, rfl⟩
    obtain ⟨e, r', hcall, hscript⟩ := hcall
    unfold fill
    rw [hcall]
    cases e with
    | some e => exact ⟨_, rfl, hscript⟩
    | none =>
      dsimp only
      split
      · have hr' : r'.Steady := by
          intro n reason
          rw [hscript]
          exact hr n reason
        obtain ⟨r'', hfill, hsame⟩ := ih hr'
        exact ⟨r'', hfill, hsame.trans hscript⟩
      · exact ⟨r', rfl, hscript⟩

theorem readByte_steady {r : Reader} (hr : r.Steady) :
    (∃ b r', r.readByte = .byte b r' ∧ r'.script = r.script) ∨
      ∃ e r', r.readByte = .ended e r' ∧ r'.script = r.script := by
  have htake : ∀ r' : Reader, r'.script = r.script →
      (∃ b r'', r'.take = .byte b r'' ∧ r''.script = r.script) ∨
        ∃ e r'', r'.take = .ended e r'' ∧ r''.script = r.script := by
    intro r' hr'
    unfold take
    split
    · exact .inl ⟨_, _, rfl, hr'⟩
    · exact .inr ⟨_, _, rfl, hr'⟩
  unfold readByte
  split
  · obtain ⟨r', hfill, hscript⟩ := fill_steady attempts hr
    rw [hfill]
    exact htake r' hscript
  · exact htake r rfl

end Reader

namespace Console

/-- The console's input never crashes. -/
def Steady (c : Console) : Prop := c.reader.Steady

theorem Steady.settle {c : Console} (h : c.Steady) : c.settle.Steady := by
  unfold Steady
  rw [c.settle_input.1]
  exact h

theorem Steady.put {c : Console} (h : c.Steady) (b : UInt8) : (c.put b).Steady := by
  have hroom : (if c.pending.size < capacity then c else c.settle).Steady := by
    split
    · exact h
    · exact h.settle
  unfold Console.put
  dsimp only
  generalize (if c.pending.size < capacity then c else c.settle) = c' at hroom ⊢
  split
  · exact hroom
  · exact hroom

theorem endReply_cases (c : Console) :
    (∃ b, c.endReply = .byte b c) ∨ c.endReply = .keep c := by
  unfold Console.endReply
  split
  · exact .inr rfl
  · exact .inl ⟨_, rfl⟩
  · exact .inl ⟨_, rfl⟩

theorem Steady.get {c : Console} (h : c.Steady) :
    (∃ b c', c.get = .byte b c' ∧ c'.Steady) ∨ ∃ c', c.get = .keep c' ∧ c'.Steady := by
  have hend : ∀ c' : Console, c'.Steady →
      (∃ b c'', c'.endReply = .byte b c'' ∧ c''.Steady) ∨
        ∃ c'', c'.endReply = .keep c'' ∧ c''.Steady := by
    intro c' hc'
    rcases c'.endReply_cases with ⟨b, hb⟩ | hk
    · exact .inl ⟨b, c', hb, hc'⟩
    · exact .inr ⟨c', hk, hc'⟩
  have hsame : ∀ {r : Reader}, r.script = c.settle.reader.script → r.Steady := by
    intro r hr n reason
    rw [hr]
    exact h.settle n reason
  unfold Console.get
  dsimp only
  rcases Reader.readByte_steady h.settle with ⟨b, r, hread, hr⟩ | ⟨e, r, hread, hr⟩
  · rw [hread]
    exact .inl ⟨b, _, rfl, hsame hr⟩
  · rw [hread]
    cases e with
    | atEnd => exact hend _ (hsame hr)
    | failed f =>
      refine hend _ ?_
      unfold noteFault
      split
      · exact hsame hr
      · exact hsame hr

end Console

namespace Traced

variable {δ : Type} [Device δ] {t : Traced δ} {d : δ}

theorem get_byte {b : UInt8} (h : Device.get t.device = .byte b d) :
    Device.get t = .byte b (t.note (.got b) d) := by
  simp only [Device.get] at h ⊢
  rw [h]

theorem get_keep (h : Device.get t.device = .keep d) : Device.get t = .keep (t.note .kept d) := by
  simp only [Device.get] at h ⊢
  rw [h]

end Traced

namespace Native

/-- The answer of the get routine to a reply of the console. -/
def answerOf {δ : Type} : Reply δ → Except Text UInt64
  | .byte b _ => .ok b.toUInt64
  | .keep _ => .ok keepValue
  | .crash reason _ => .error reason

namespace Registry

/-- A session that is changed is found as changed. -/
theorem find_update (r : Registry) (handle : UInt64) (f : Session → Session) :
    (r.update handle f).find? handle = (r.find? handle).map f := by
  unfold find? update
  dsimp only
  induction r.sessions with
  | nil => rfl
  | cons entry rest ih =>
    obtain ⟨k, t⟩ := entry
    rw [List.map_cons, List.lookup_cons, List.lookup_cons]
    by_cases hk : handle = k
    · simp [hk]
    · have hk' : (handle == k) = false := by simpa using hk
      simp only [hk']
      exact ih

theorem find_put {r : Registry} {handle : UInt64} {s : Session} (h : r.find? handle = some s)
    (value : UInt64) :
    (r.put handle value).find? handle =
      some { s with console := s.console.put value.toUInt8 } := by
  rw [put, find_update, h]
  rfl

theorem find_trap {r : Registry} {handle : UInt64} {s : Session} (h : r.find? handle = some s)
    (index : UInt64) : (r.trap handle index).find? handle = some (s.noteTrap index.toInt64) := by
  rw [trap, find_update, h]
  rfl

/-- What the console answers is the answer: a byte, or without one the value that leaves the cell
unchanged. -/
theorem get_live {r : Registry} {handle : UInt64} {s : Session} (h : r.find? handle = some s) :
    ∃ r', r.get handle = (answerOf s.console.get, r') ∧
      r'.find? handle = some { s with console := s.console.get.device } := by
  unfold get
  simp only [h]
  cases s.console.get with
  | byte b console => exact ⟨_, rfl, by rw [find_update, h]; rfl⟩
  | keep console => exact ⟨_, rfl, by rw [find_update, h]; rfl⟩
  | crash reason console => exact ⟨_, rfl, by rw [find_update, h]; rfl⟩

end Registry

open A64

variable {σ : Type}

/-- The routines act on the sessions as the registry does, which is seen in the world outside, and
leave the tape alone. What they do to the registers that a callee need not preserve is open, and so
is all that happens where the registry's routine would not return. -/
structure Serving (host : Host σ) (view : σ → Registry) (entry : Cpu σ) : Prop extends
    Keeping host entry where
  distinct : (routines entry).Nodup
  tape : ∀ f ∈ routines entry, ∀ s, s.sp = entry.sp - 80 →
    ∀ a, InTape entry a → (host.routine f s).memory a = s.memory a
  put : ∀ s, s.sp = entry.sp - 80 →
    view (host.routine (entry.x 3) s).world = (view s.world).put (s.x 0) (s.x 1)
  get : ∀ s, s.sp = entry.sp - 80 →
    ∀ value registry, (view s.world).get (s.x 0) = (.ok value, registry) →
      (host.routine (entry.x 4) s).x 0 = value ∧
        view (host.routine (entry.x 4) s).world = registry
  trap : ∀ s, s.sp = entry.sp - 80 →
    view (host.routine (entry.x 5) s).world = (view s.world).trap (s.x 0) (s.x 1)

/-- What a call asks of the console. A result whose bit 31 is set stands for no byte. -/
def exchange? (entry : Cpu σ) (call : Call) : Option Exchange :=
  if call.target = entry.x 3 then some (.put call.x₁.toUInt8)
  else if call.target = entry.x 4 then
    some (if call.result.toNat.testBit 31 then .kept else .got call.result.toUInt8)
  else none

/-- What the calls ask of the console, in order. -/
def exchangesOf (entry : Cpu σ) (calls : List Call) : List Exchange :=
  calls.filterMap (exchange? entry)

/-- A call of the trap routine was made. -/
def Trapped (entry s : Cpu σ) : Prop := ∃ call ∈ s.calls, call.target = entry.x 5

theorem trapped_congr {entry s s' : Cpu σ} (h : s'.calls = s.calls) :
    Trapped entry s' ↔ Trapped entry s := by
  unfold Trapped
  rw [h]

theorem testBit_byte (b : UInt8) : b.toUInt64.toNat.testBit 31 = false := by
  have hlt : b.toNat < 2 ^ 31 := Nat.lt_of_lt_of_le b.toNat_lt (by decide)
  rw [UInt8.toNat_toUInt64]
  exact Nat.testBit_lt_two_pow hlt

theorem testBit_keepValue : keepValue.toNat.testBit 31 = true := by decide

namespace Serving

variable {host : Host σ} {view : σ → Registry} {entry s : Cpu σ}

theorem ne_trap (h : Serving host view entry) {f : UInt64}
    (hf : f = entry.x 3 ∨ f = entry.x 4) : f ≠ entry.x 5 := by
  have hd := h.distinct
  simp only [routines, List.nodup_cons, List.mem_cons, List.not_mem_nil, or_false, not_or] at hd
  rcases hf with rfl | rfl
  · exact hd.1.2
  · exact hd.2.1

theorem get_ne_put (h : Serving host view entry) : entry.x 4 ≠ entry.x 3 := by
  have hd := h.distinct
  simp only [routines, List.nodup_cons, List.mem_cons, List.not_mem_nil, or_false, not_or] at hd
  exact fun heq => hd.1.1 heq.symm

/-- A call leaves the tape alone. -/
theorem call_tape (h : Serving host view entry) {f : UInt64} (hf : f ∈ routines entry)
    (hsp : s.sp = entry.sp - 80) {a : UInt64} (ha : InTape entry a) :
    (s.call host f).memory a = s.memory a := h.tape f hf (s.setX 30 _) hsp a ha

theorem call_put (h : Serving host view entry) (hsp : s.sp = entry.sp - 80) :
    view (s.call host (entry.x 3)).world = (view s.world).put (s.x 0) (s.x 1) :=
  h.put (s.setX 30 _) hsp

theorem call_get (h : Serving host view entry) (hsp : s.sp = entry.sp - 80) {value : UInt64}
    {registry : Registry} (hget : (view s.world).get (s.x 0) = (.ok value, registry)) :
    (s.call host (entry.x 4)).x 0 = value ∧ view (s.call host (entry.x 4)).world = registry :=
  h.get (s.setX 30 _) hsp value registry hget

theorem call_trap (h : Serving host view entry) (hsp : s.sp = entry.sp - 80) :
    view (s.call host (entry.x 5)).world = (view s.world).trap (s.x 0) (s.x 1) :=
  h.trap (s.setX 30 _) hsp

theorem exchanges_put (host : Host σ) (entry s : Cpu σ) :
    exchangesOf entry (s.call host (entry.x 3)).calls =
      exchangesOf entry s.calls ++ [.put (s.x 1).toUInt8] := by
  simp [Cpu.call, exchangesOf, exchange?]

theorem exchanges_get (h : Serving host view entry) (s : Cpu σ) :
    exchangesOf entry (s.call host (entry.x 4)).calls =
      exchangesOf entry s.calls ++ [if ((s.call host (entry.x 4)).x 0).toNat.testBit 31 then .kept
        else .got ((s.call host (entry.x 4)).x 0).toUInt8] := by
  simp [Cpu.call, exchangesOf, exchange?, h.get_ne_put]

theorem exchanges_trap (h : Serving host view entry) (s : Cpu σ) :
    exchangesOf entry (s.call host (entry.x 5)).calls = exchangesOf entry s.calls := by
  have h₃ : entry.x 5 ≠ entry.x 3 := fun heq => h.ne_trap (.inl rfl) heq.symm
  have h₄ : entry.x 5 ≠ entry.x 4 := fun heq => h.ne_trap (.inr rfl) heq.symm
  simp [Cpu.call, exchangesOf, exchange?, h₃, h₄]

/-- A call of another routine is no call of the trap. -/
theorem trapped_call (h : Serving host view entry) {f : UInt64}
    (hf : f = entry.x 3 ∨ f = entry.x 4) : Trapped entry (s.call host f) ↔ Trapped entry s := by
  constructor
  · rintro ⟨call, hmem, htarget⟩
    rcases List.mem_append.mp hmem with hold | hnew
    · exact ⟨call, hold, htarget⟩
    · rw [List.mem_singleton.mp hnew] at htarget
      exact absurd htarget (h.ne_trap hf)
  · rintro ⟨call, hmem, htarget⟩
    exact ⟨call, List.mem_append_left _ hmem, htarget⟩

end Serving

end Native

end TapeLang
