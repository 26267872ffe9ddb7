import TapeLang.Proofs.Delivery
import TapeLang.Proofs.Trace

namespace TapeLang

namespace Reader

/-- The next requests for a byte are answered so, one after the other. -/
def Answers : List (Except ReadEnd UInt8) → Reader → Prop
  | [], _ => True
  | .ok b :: rest, r => ∃ r', r.readByte = .byte b r' ∧ Answers rest r'
  | .error e :: rest, r => ∃ r', r.readByte = .ended e r' ∧ Answers rest r'

/-- The reader hands out the bytes, then reports the fault if there is one, and then is at its end
for good. -/
def Delivers (r : Reader) (bytes : Text) (fault : Option Fault) : Prop :=
  ∀ n, r.Answers (bytes.map .ok ++ (fault.toList.map fun f => .error (.failed f)) ++
    List.replicate n (.error .atEnd))

namespace Delivers

variable {r : Reader} {bytes : Text} {fault : Option Fault}

theorem byte {b : UInt8} (h : r.Delivers (b :: bytes) fault) :
    ∃ r', r.readByte = .byte b r' ∧ r'.Delivers bytes fault := by
  obtain ⟨r', hread, -⟩ := h 0
  refine ⟨r', hread, ?_⟩
  intro n
  obtain ⟨r'', hread', hrest⟩ := h n
  cases hread.symm.trans hread'
  exact hrest

theorem failed {f : Fault} (h : r.Delivers [] (some f)) :
    ∃ r', r.readByte = .ended (.failed f) r' ∧ r'.Delivers [] none := by
  obtain ⟨r', hread, -⟩ := h 0
  refine ⟨r', hread, ?_⟩
  intro n
  obtain ⟨r'', hread', hrest⟩ := h n
  cases hread.symm.trans hread'
  exact hrest

theorem ended (h : r.Delivers [] none) :
    ∃ r', r.readByte = .ended .atEnd r' ∧ r'.Delivers [] none := by
  obtain ⟨r', hread, -⟩ := h 1
  refine ⟨r', hread, ?_⟩
  intro n
  obtain ⟨r'', hread', hrest⟩ := h (n + 1)
  cases hread.symm.trans hread'
  exact hrest

end Delivers

/-- A stream that gives the bytes, reports `last` with the end of them and is at its end then. -/
def closing (bytes : Text) (last : ReadEnd) : Reader := ofSteps #[.deliver bytes (some last)]

/-- A reader past its last step is at its end however often it is asked. -/
theorem answers_past {r : Reader} {steps : Array ReadStep}
    (hscript : r.script = (ofSteps steps).script) (hnext : steps.size ≤ r.next)
    (hleft : r.left = none) (hbuffer : r.buffer = []) (hheld : r.held = none) (n : Nat) :
    r.Answers (List.replicate n (.error .atEnd)) := by
  induction n generalizing r with
  | zero => trivial
  | succ n ih =>
    have hstep : r.script r.next = .deliver [] (some .atEnd) := by
      rw [hscript]
      simp [ofSteps, Array.getD, Nat.not_lt.mpr hnext]
    refine ⟨{ r with next := r.next + 1 }, ?_, ih hscript (by simp; omega) hleft hbuffer hheld⟩
    simp [readByte, fill, attempts, call, take, hbuffer, hheld, hstep, hleft]

section
variable {r : Reader} {bytes : Text} {last : ReadEnd}

/-- A reader that has made its only step hands out what it holds, and then its report. -/
theorem answers_held (hscript : r.script = (closing bytes last).script) (hnext : 1 ≤ r.next)
    (hleft : r.left = none) (hheld : r.held = some last) (n : Nat) :
    r.Answers (r.buffer.map .ok ++ .error last :: List.replicate n (.error .atEnd)) := by
  induction hu : r.buffer generalizing r with
  | nil =>
    refine ⟨{ r with held := none }, ?_, ?_⟩
    · simp [readByte, take, hu, hheld]
    · exact answers_past (r := { r with held := none }) hscript hnext hleft hu rfl n
  | cons b u ih =>
    refine ⟨{ r with buffer := u }, ?_, ih hscript hnext hleft hheld rfl⟩
    simp [readByte, take, hu]

/-- The end of the only step is read as soon as what is left of it fits into the buffer. -/
theorem readByte_closing (hstep : r.script r.next = .deliver bytes (some last))
    (hbuffer : r.buffer = []) (hheld : r.held = none)
    (hshort : (r.left.getD bytes).drop capacity = []) :
    r.readByte = take { r with
      next := r.next + 1, left := none, buffer := r.left.getD bytes, held := some last } := by
  have hfill : ∀ n, r.fill (n + 1) = .ok { r with
      next := r.next + 1, left := none, buffer := r.left.getD bytes, held := some last } := by
    intro n
    simp only [fill, call, hstep, hshort]
  simp only [readByte, hbuffer, hheld, attempts, hfill 99, List.isEmpty_nil, Option.isNone_none,
    Bool.and_self, if_true]

/-- Of a longer rest a buffer is taken. -/
theorem readByte_part (hstep : r.script r.next = .deliver bytes (some last))
    (hbuffer : r.buffer = []) (hheld : r.held = none)
    (hlong : (r.left.getD bytes).drop capacity ≠ []) :
    r.readByte = take { r with
      left := some ((r.left.getD bytes).drop capacity)
      buffer := (r.left.getD bytes).take capacity } := by
  have hsome : (r.left.getD bytes).take capacity ≠ [] := by
    intro hnil
    rcases List.take_eq_nil_iff.mp hnil with hzero | hnone
    · cases hzero
    · rw [hnone] at hlong
      exact hlong rfl
  have hfill : ∀ n, r.fill (n + 1) = .ok { r with
      left := some ((r.left.getD bytes).drop capacity)
      buffer := (r.left.getD bytes).take capacity } := by
    intro n
    simp only [fill, call, hstep]
    cases hrest : (r.left.getD bytes).drop capacity with
    | nil => exact absurd hrest hlong
    | cons b rest => simp [hsome]
  simp only [readByte, hbuffer, hheld, attempts, hfill 99, List.isEmpty_nil, Option.isNone_none,
    Bool.and_self, if_true]

/-- A reader in the middle of its only step. The induction is on the number of bytes still to come:
a buffer takes a part of them, and its first byte is handed out at once. -/
theorem answers_closing (k : Nat) (hscript : r.script = (closing bytes last).script)
    (hnext : r.next = 0) (hheld : r.held = none)
    (hk : (r.buffer ++ r.left.getD bytes).length = k) (n : Nat) :
    r.Answers ((r.buffer ++ r.left.getD bytes).map .ok ++
      .error last :: List.replicate n (.error .atEnd)) := by
  have hstep : r.script r.next = .deliver bytes (some last) := by
    rw [hscript, hnext]
    rfl
  induction k generalizing r with
  | zero =>
    obtain ⟨hbuffer, hleft⟩ := List.append_eq_nil_iff.mp (List.eq_nil_of_length_eq_zero hk)
    have hread := readByte_closing hstep hbuffer hheld (by rw [hleft]; rfl)
    rw [hleft] at hread
    rw [hbuffer, hleft]
    refine ⟨_, hread, ?_⟩
    exact answers_past
      (r := { r with next := r.next + 1, left := none, buffer := [], held := none })
      hscript (Nat.le_add_left 1 _) rfl rfl rfl n
  | succ k ih =>
    cases hbuffer : r.buffer with
    | cons b u =>
      have hread : r.readByte = .byte b { r with buffer := u } := by
        simp [readByte, take, hbuffer]
      rw [hbuffer] at hk
      refine ⟨_, hread, ?_⟩
      exact ih (r := { r with buffer := u }) hscript hnext hheld (by simpa using hk) hstep
    | nil =>
      rw [hbuffer, List.nil_append] at hk
      rw [List.nil_append]
      cases hq : r.left.getD bytes with
      | nil => simp [hq] at hk
      | cons b q =>
        by_cases hshort : (r.left.getD bytes).drop capacity = []
        · have hread := readByte_closing hstep hbuffer hheld hshort
          rw [hq] at hread
          refine ⟨_, hread, ?_⟩
          exact answers_held (r := { r with
            next := r.next + 1, left := none, buffer := q, held := some last })
            hscript (Nat.le_add_left 1 _) rfl rfl n
        · have hread := readByte_part hstep hbuffer hheld hshort
          rw [hq] at hread hk
          refine ⟨_, hread, ?_⟩
          have hrest := ih (r := { r with
            left := some ((b :: q).drop capacity), buffer := q.take 4095 }) hscript hnext hheld
            (by simpa [capacity] using hk) hstep
          simpa [capacity] using hrest

end

theorem Answers.of_append {xs ys : List (Except ReadEnd UInt8)} {r : Reader}
    (h : r.Answers (xs ++ ys)) : r.Answers xs := by
  induction xs generalizing r with
  | nil => trivial
  | cons x xs ih =>
    cases x with
    | ok b =>
      obtain ⟨r', hread, hrest⟩ := h
      exact ⟨r', hread, ih hrest⟩
    | error e =>
      obtain ⟨r', hread, hrest⟩ := h
      exact ⟨r', hread, ih hrest⟩

theorem delivers_failed (bytes : Text) (f : Fault) :
    (closing bytes (.failed f)).Delivers bytes (some f) := by
  intro n
  have h := answers_closing bytes.length (r := closing bytes (.failed f)) rfl rfl rfl rfl n
  rw [List.append_assoc]
  exact h

theorem delivers_ended (bytes : Text) : (closing bytes .atEnd).Delivers bytes none := by
  intro n
  have h := answers_closing bytes.length (r := closing bytes .atEnd) rfl rfl rfl rfl n
  rw [← List.replicate_succ, List.replicate_succ', ← List.append_assoc] at h
  rw [Option.toList_none, List.map_nil, List.append_nil]
  exact h.of_append

end Reader

/-- The sink stores all of every write and reports no fault. -/
def Sink.Reliable (s : Sink) : Prop :=
  ∀ held count size, s.rule held count size = { stored := size }

namespace Exchange

/-- The byte that an exchange sends. -/
def sent? : Exchange → Option UInt8
  | put b => some b
  | _ => none

/-- All bytes sent, in order. -/
def sent (xs : List Exchange) : Text := xs.filterMap sent?

/-- The number of requests for a byte. -/
def requests (xs : List Exchange) : Nat := xs.countP fun x => x.sent?.isNone

/-- The bytes sent until more than `n` requests for a byte are made. -/
def sentBefore (n : Nat) : List Exchange → Text
  | [] => []
  | x :: rest =>
    match x.sent?, n with
    | some b, _ => b :: sentBefore n rest
    | none, 0 => []
    | none, n + 1 => sentBefore n rest

/-- As long as there are no more requests than that, all bytes count. -/
theorem sentBefore_append {n : Nat} {xs : List Exchange} (h : requests xs ≤ n)
    (ys : List Exchange) :
    sentBefore n (xs ++ ys) = sent xs ++ sentBefore (n - requests xs) ys := by
  induction xs generalizing n with
  | nil => rfl
  | cons x xs ih =>
    simp only [requests, List.countP_cons] at h
    cases hx : x.sent? with
    | some b =>
      simp only [hx, Option.isNone_some, Bool.false_eq_true, if_false, Nat.add_zero] at h
      simp [sentBefore, sent, requests, hx, ih h]
    | none =>
      simp only [hx, Option.isNone_none, if_true] at h
      obtain ⟨k, rfl⟩ : ∃ k, n = k + 1 := ⟨n - 1, by omega⟩
      have hk := ih (n := k) (Nat.le_of_succ_le_succ h)
      simp [sentBefore, sent, requests, hx, hk]

theorem sentBefore_eq {n : Nat} {xs : List Exchange} (h : requests xs ≤ n) :
    sentBefore n xs = sent xs := by
  simpa [sentBefore] using sentBefore_append h []

/-- Once there are more requests, nothing counts any more. -/
theorem sentBefore_past {n : Nat} {xs : List Exchange} (h : n < requests xs)
    (ys : List Exchange) : sentBefore n (xs ++ ys) = sentBefore n xs := by
  induction xs generalizing n with
  | nil => simp [requests] at h
  | cons x xs ih =>
    simp only [requests, List.countP_cons] at h
    cases hx : x.sent? with
    | some b =>
      simp only [hx, Option.isNone_some, Bool.false_eq_true, if_false, Nat.add_zero] at h
      simp [sentBefore, hx, ih h]
    | none =>
      cases n with
      | zero => simp [sentBefore, hx]
      | succ n =>
        simp only [hx, Option.isNone_none, if_true] at h
        have hn := ih (n := n) (Nat.lt_of_succ_lt_succ h)
        simp [sentBefore, hx, hn]

@[simp] theorem sent_put (xs : List Exchange) (b : UInt8) :
    sent (xs ++ [.put b]) = sent xs ++ [b] := by
  simp [sent, sent?]

@[simp] theorem requests_put (xs : List Exchange) (b : UInt8) :
    requests (xs ++ [.put b]) = requests xs := by
  simp [requests, sent?]

theorem sent_request (xs : List Exchange) {x : Exchange} (h : x.sent? = none) :
    sent (xs ++ [x]) = sent xs := by
  simp [sent, h]

theorem requests_request (xs : List Exchange) {x : Exchange} (h : x.sent? = none) :
    requests (xs ++ [x]) = requests xs + 1 := by
  simp [requests, h]

end Exchange

open Exchange

namespace Console

theorem settle_failed {c : Console} {f : Fault} (h : c.fault = some f) : c.settle = c := by
  simp [settle, h]

theorem put_failed {c : Console} {f : Fault} (h : c.fault = some f) (b : UInt8) :
    c.put b = c := by
  simp [put, settle_failed h, h]

/-- The console on another stream. -/
def withReader (c : Console) (r : Reader) : Console := { c with reader := r }

theorem settle_withReader (c : Console) (r : Reader) :
    (c.withReader r).settle = c.settle.withReader r := by
  unfold settle writePending withReader
  split
  · split <;> rfl
  · rfl

/-- Takes a byte that there is room for, unless a stream has failed. -/
def accept (c : Console) (b : UInt8) : Console :=
  if c.fault.isNone then { c with pending := c.pending.push b, written := c.written + 1 } else c

theorem put_eq (c : Console) (b : UInt8) :
    c.put b = (if c.pending.size < capacity then c else c.settle).accept b := rfl

theorem accept_withReader (c : Console) (r : Reader) (b : UInt8) :
    (c.withReader r).accept b = (c.accept b).withReader r := by
  unfold accept
  rw [show (c.withReader r).fault = c.fault from rfl]
  split <;> rfl

theorem put_withReader (c : Console) (r : Reader) (b : UInt8) :
    (c.withReader r).put b = (c.put b).withReader r := by
  rw [put_eq, put_eq, settle_withReader, show (c.withReader r).pending = c.pending from rfl]
  split
  · exact accept_withReader c r b
  · exact accept_withReader c.settle r b

theorem put_input (c : Console) (b : UInt8) :
    (c.put b).reader = c.reader ∧ (c.put b).policy = c.policy ∧ (c.put b).read = c.read := by
  unfold put
  dsimp only
  split
  · split <;> exact ⟨rfl, rfl, rfl⟩
  · split <;> exact c.settle_input

/-- The output of a console on a reliable sink without any fault so far. -/
structure Clear (before sent : Text) (c : Console) : Prop where
  delivering : Delivering before sent c
  noFault : c.fault = none
  reliable : c.sink.Reliable

namespace Clear

variable {before sent : Text} {c d : Console}

theorem settle (h : Clear before sent c) : Clear before sent c.settle := by
  refine ⟨h.delivering.settle, ?_, ?_⟩
  · have hrule := h.reliable
    simp only [Console.settle, writePending, Sink.write, Sink.Reliable] at hrule ⊢
    split
    · split
      · exact h.noFault
      · simp [hrule]
    · exact h.noFault
  · have hrule : c.settle.sink.rule = c.sink.rule := by
      unfold Console.settle writePending
      split
      · split <;> rfl
      · rfl
    unfold Sink.Reliable
    rw [hrule]
    exact h.reliable

theorem push (h : Clear before sent c) (b : UInt8) : Clear before (sent ++ [b])
    { c with pending := c.pending.push b, written := c.written + 1 } := by
  refine ⟨?_, h.noFault, h.reliable⟩
  simpa [h.noFault] using h.delivering.push b

theorem put (h : Clear before sent c) (b : UInt8) : Clear before (sent ++ [b]) (c.put b) := by
  unfold Console.put
  dsimp only
  split
  · rw [if_pos (by simp [h.noFault])]
    exact h.push b
  · rw [if_pos (by simp [h.settle.noFault])]
    exact h.settle.push b

/-- The input side does not matter. -/
theorem input (h : Clear before sent c) (r : Reader) (n : Nat) :
    Clear before sent { c.withReader r with read := n } :=
  ⟨h.delivering.congr rfl rfl rfl id, h.noFault, h.reliable⟩

/-- All that was sent is in the sink once the pending output is written. -/
theorem received (h : Clear before sent c) :
    c.settle.sink.received.toList = before ++ sent :=
  (h.delivering.settled h.settle.noFault).1

end Clear

section
variable {c : Console} {r : Reader}

theorem get_byte {b : UInt8} (h : c.reader.readByte = .byte b r) :
    c.get = .byte b { c.settle.withReader r with read := c.settle.read + 1 } := by
  rw [get_eq, fetch, c.settle_input.1, h]
  rfl

theorem get_ended (h : c.reader.readByte = .ended .atEnd r) :
    c.get = (c.settle.withReader r).endReply := by
  rw [get_eq, fetch, c.settle_input.1, h]
  rfl

theorem get_failed {f : Fault} (h : c.reader.readByte = .ended (.failed f) r)
    (hfault : c.settle.fault = none) :
    c.get = { c.settle.withReader r with fault := some f }.endReply := by
  rw [get_eq, fetch, c.settle_input.1, h]
  simp [noteFault, withReader, hfault]

/-- At the end of the input only the policy matters. -/
theorem endReply_beside {R : Console → Console → Prop} {c' : Console}
    (hpolicy : c'.policy = c.policy) (h : R c c') : c.endReply.Beside R c'.endReply := by
  unfold endReply
  rw [hpolicy]
  split
  · exact .keep h
  · exact .byte 255 h
  · exact .byte 0 h

end

/-- Two consoles after the same exchanges. The input of the first ends after the bytes, that of the
second fails there. Until it does they differ in their readers only, and from then on the second
lets nothing out. -/
inductive Alongside (before bytes : Text) (f : Fault) (xs : List Exchange) (c : Console) :
    Console → Prop where
  | together {r : Reader} (few : requests xs ≤ bytes.length)
      (ahead : c.reader.Delivers (bytes.drop (requests xs)) none)
      (ahead' : r.Delivers (bytes.drop (requests xs)) (some f)) :
      Alongside before bytes f xs c (c.withReader r)
  | parted {c' : Console} (many : bytes.length < requests xs)
      (drained : c.reader.Delivers [] none) (drained' : c'.reader.Delivers [] none)
      (policy : c'.policy = c.policy) (read : c'.read = c.read) (fault : c'.fault = some f)
      (received : c'.sink.received.toList = before ++ sentBefore bytes.length xs) :
      Alongside before bytes f xs c c'

namespace Alongside

variable {before bytes : Text} {f : Fault} {xs : List Exchange} {c c' : Console}

theorem put (h : Alongside before bytes f xs c c') (b : UInt8) :
    Alongside before bytes f (xs ++ [.put b]) (c.put b) (c'.put b) := by
  obtain ⟨hreader, hpolicy, hread⟩ := put_input c b
  cases h with
  | together few ahead ahead' =>
    rw [put_withReader]
    rw [← requests_put xs b] at few ahead ahead'
    rw [← hreader] at ahead
    exact .together few ahead ahead'
  | parted many drained drained' policy read fault received =>
    rw [put_failed fault]
    rw [← sentBefore_past many [.put b]] at received
    rw [← requests_put xs b] at many
    rw [← hreader] at drained
    exact .parted many drained drained' (policy.trans hpolicy.symm) (read.trans hread.symm) fault
      received

/-- A request is answered alike, also the one at which the second console fails. -/
theorem get (h : Alongside before bytes f xs c c') (hc : Clear before (sent xs) c) :
    c.get.Beside (fun d d' => ∀ x : Exchange, x.sent? = none →
      Clear before (sent (xs ++ [x])) d ∧ Alongside before bytes f (xs ++ [x]) d d') c'.get := by
  obtain ⟨hreader, hpolicy, hread⟩ := settle_input c
  have hclear := hc.settle.input
  cases h with
  | @together r₀ few ahead ahead' =>
    rcases Nat.lt_or_eq_of_le few with hless | hall
    · -- both readers hand out the next byte
      rw [List.drop_eq_getElem_cons hless] at ahead ahead'
      obtain ⟨r, hr, hahead⟩ := ahead.byte
      obtain ⟨r', hr', hahead'⟩ := ahead'.byte
      rw [get_byte hr, get_byte (c := c.withReader r₀) hr', settle_withReader]
      refine .byte _ ?_
      intro x hx
      rw [sent_request xs hx]
      refine ⟨hclear r _, ?_⟩
      rw [← requests_request xs hx] at hahead hahead'
      exact .together (by rw [requests_request xs hx]; exact hless) hahead hahead'
    · -- the first reader is at its end and the second fails
      rw [hall, List.drop_length] at ahead ahead'
      obtain ⟨r, hr, hover⟩ := ahead.ended
      obtain ⟨r', hr', hover'⟩ := ahead'.failed
      have hfault : (c.withReader r₀).settle.fault = none := by
        rw [settle_withReader]
        exact hc.settle.noFault
      rw [get_ended hr, get_failed (c := c.withReader r₀) hr' hfault, settle_withReader]
      refine endReply_beside ?_ ?_
      · rfl
      intro x hx
      rw [sent_request xs hx]
      refine ⟨hclear r _, ?_⟩
      refine .parted (by rw [requests_request xs hx]; omega) hover hover' rfl rfl rfl ?_
      have hsent : sentBefore bytes.length (xs ++ [x]) = sent xs := by
        rw [sentBefore_append few, hall, Nat.sub_self]
        simp [sentBefore, hx]
      rw [hsent]
      exact hc.received
  | parted many drained drained' policy read fault received =>
    obtain ⟨r, hr, hover⟩ := drained.ended
    obtain ⟨r', hr', hover'⟩ := drained'.ended
    rw [get_ended hr, get_ended hr', settle_failed fault]
    refine endReply_beside ?_ ?_
    · exact policy.trans hpolicy.symm
    intro x hx
    rw [sent_request xs hx]
    refine ⟨hclear r _, ?_⟩
    refine .parted (by rw [requests_request xs hx]; omega) hover hover'
      (policy.trans hpolicy.symm) (read.trans hread.symm) fault ?_
    rw [sentBefore_past many]
    exact received

/-- What both runs leave behind: the second has kept what was sent before it failed. -/
theorem flushed (h : Alongside before bytes f xs c c') (hc : Clear before (sent xs) c) :
    c.flush.sink.received.toList = before ++ sent xs ∧
      c'.flush.sink.received.toList = before ++ sentBefore bytes.length xs ∧
      c'.flush.read = c.flush.read ∧ c.flush.fault = none ∧
      c'.flush.fault = if bytes.length < requests xs then some f else none := by
  refine ⟨hc.received, ?_⟩
  obtain ⟨-, -, hread⟩ := settle_input c
  cases h with
  | together few ahead ahead' =>
    rw [flush, flush, settle_withReader, sentBefore_eq few, if_neg (Nat.not_lt.mpr few)]
    exact ⟨hc.received, rfl, hc.settle.noFault, hc.settle.noFault⟩
  | parted many drained drained' policy read fault received =>
    rw [flush, flush, settle_failed fault, if_pos many]
    exact ⟨received, read.trans hread.symm, hc.settle.noFault, fault⟩

end Alongside

/-- Traced consoles that have exchanged the same, alongside. -/
def Paired (before bytes : Text) (f : Fault) (t t' : Traced Console) : Prop :=
  t'.trace = t.trace ∧ Clear before (sent t.trace) t.device ∧
    Alongside before bytes f t.trace t.device t'.device

theorem paired_inStep (before bytes : Text) (f : Fault) : InStep (Paired before bytes f) where
  put b t t' := by
    rintro ⟨htrace, hclear, halong⟩
    refine ⟨?_, ?_, halong.put b⟩
    · change t'.trace ++ [.put b] = t.trace ++ [.put b]
      rw [htrace]
    · change Clear before (sent (t.trace ++ [.put b])) (t.device.put b)
      rw [sent_put]
      exact hclear.put b
  get t t' := by
    rintro ⟨htrace, hclear, halong⟩
    have hget := halong.get hclear
    have hnote : ∀ x d d', (t'.note x d').trace = (t.note x d).trace := by
      intro x d d'
      simp only [Traced.note, htrace]
    simp only [Device.get]
    generalize t.device.get = reply, t'.device.get = reply' at hget ⊢
    cases hget with
    | byte b h => exact .byte b ⟨hnote _ _ _, h _ rfl⟩
    | keep h => exact .keep ⟨hnote _ _ _, h _ rfl⟩
    | crash reason h => exact .crash reason ⟨hnote _ _ _, h _ rfl⟩

end Console

/-- A run reports why it stopped, else the fault that is left after the flush. -/
theorem Ran.failure_ofMachine (stop : Option Stop) (m : Machine Console) :
    (ofMachine stop m).failure = (stop.map Stop.toFailure).or
      (m.device.flush.fault.map fun f => .within (text "output") (some f.toFailure)) := by
  unfold failure ofMachine
  cases stop with
  | some why => rfl
  | none => cases m.device.flush.fault <;> rfl

namespace Block

variable {sink : Sink} {bytes : Text} {f : Fault} {reader reader' : Reader}

/-- The run whose input ends and the run whose input fails, on the same fuel. -/
theorem runTraced_paired (b : Block) (w : Watch) (tape : Tape) (policy : EndPolicy)
    (hsink : sink.Reliable) (hends : reader.Delivers bytes none)
    (hfails : reader'.Delivers bytes (some f)) (fuel : Nat) :
    (b.runTraced fuel w tape (Console.opened reader sink policy)).Beside
      (Console.Paired sink.received.toList bytes f)
      (b.runTraced fuel w tape (Console.opened reader' sink policy)) := by
  have hclear : Console.Clear sink.received.toList [] (Console.opened reader sink policy) :=
    ⟨.opened reader sink policy, rfl, hsink⟩
  have halong : Console.Alongside sink.received.toList bytes f []
      (Console.opened reader sink policy) (Console.opened reader' sink policy) :=
    .together (c := Console.opened reader sink policy) (Nat.zero_le _) hends hfails
  exact Machine.exec_beside (Console.paired_inStep _ _ _) w fuel b
    (m := startTraced tape (Console.opened reader sink policy))
    (e := { device := Console.opened reader' sink policy }) ⟨rfl, hclear, halong⟩

/-- What the two runs leave behind, on the same fuel. -/
theorem runWith_paired (b : Block) (w : Watch) (tape : Tape) (policy : EndPolicy)
    (hsink : sink.Reliable) (hends : reader.Delivers bytes none)
    (hfails : reader'.Delivers bytes (some f)) (fuel : Nat) :
    (b.runWith fuel w tape (Console.opened reader sink policy) = none ∧
      b.runWith fuel w tape (Console.opened reader' sink policy) = none) ∨
    ∃ stop m m', b.runWith fuel w tape (Console.opened reader sink policy) =
        some (.ofMachine stop m) ∧
      b.runWith fuel w tape (Console.opened reader' sink policy) =
        some (.ofMachine stop (m.on m')) ∧
      ∃ xs, b.exchanges? fuel w tape (Console.opened reader sink policy) = some xs ∧
        b.exchanges? fuel w tape (Console.opened reader' sink policy) = some xs ∧
        Console.Clear sink.received.toList (sent xs) m.device ∧
        Console.Alongside sink.received.toList bytes f xs m.device m' := by
  have h := runTraced_paired b w tape policy hsink hends hfails fuel
  rw [runWith_traced, runWith_traced, exchanges?, exchanges?]
  generalize b.runTraced fuel w tape (Console.opened reader sink policy) = o,
    b.runTraced fuel w tape (Console.opened reader' sink policy) = o' at h ⊢
  cases h with
  | outOfFuel => exact .inl ⟨rfl, rfl⟩
  | @done m t related =>
    obtain ⟨htrace, hclear, halong⟩ := related
    exact .inr ⟨none, m.mapDevice Traced.device, t.device, rfl, rfl, m.device.trace, rfl,
      congrArg some htrace, hclear, halong⟩
  | @stopped why m t related =>
    obtain ⟨htrace, hclear, halong⟩ := related
    exact .inr ⟨some why, m.mapDevice Traced.device, t.device, rfl, rfl, m.device.trace, rfl,
      congrArg some htrace, hclear, halong⟩

/-- A run whose input fails does on the tape what the run does whose input ends there, and the two
ask the same of their consoles and get the same replies; either both end or neither does. But the
sink of the first gets only what was sent before the read that failed, where the other gets all of
it. The fault is reported unless the run was stopped by something else. -/
theorem read_failure_ends_output (b : Block) (w : Watch) (tape : Tape) (policy : EndPolicy)
    (sink : Sink) (hsink : sink.Reliable) (bytes : Text) (f : Fault) (reader reader' : Reader)
    (hends : reader.Delivers bytes none) (hfails : reader'.Delivers bytes (some f)) :
    let ending := Console.opened reader sink policy
    let failing := Console.opened reader' sink policy
    ((∃ fuel r, b.runWith fuel w tape failing = some r) ↔
      ∃ fuel r, b.runWith fuel w tape ending = some r) ∧
    ∀ fuel fuel' r r', b.runWith fuel w tape ending = some r →
      b.runWith fuel' w tape failing = some r' →
      r'.tape = r.tape ∧ r'.stop = r.stop ∧ r'.steps = r.steps ∧ r'.iterations = r.iterations ∧
      r'.console.read = r.console.read ∧
      ∃ xs, b.exchanges? fuel w tape ending = some xs ∧
        b.exchanges? fuel' w tape failing = some xs ∧
        r.console.sink.received.toList = sink.received.toList ++ sent xs ∧
        r'.console.sink.received.toList = sink.received.toList ++ sentBefore bytes.length xs ∧
        r.failure = r.stop.map Stop.toFailure ∧
        r'.failure = (r.stop.map Stop.toFailure).or
          (if bytes.length < requests xs then some (.within (text "output") (some f.toFailure))
            else none) := by
  intro ending failing
  have hpaired := runWith_paired b w tape policy hsink hends hfails
  constructor
  · constructor
    · rintro ⟨fuel, r, h⟩
      rcases hpaired fuel with ⟨-, hnone⟩ | ⟨stop, m, m', hrun, -⟩
      · rw [hnone] at h
        cases h
      · exact ⟨fuel, _, hrun⟩
    · rintro ⟨fuel, r, h⟩
      rcases hpaired fuel with ⟨hnone, -⟩ | ⟨stop, m, m', -, hrun, -⟩
      · rw [hnone] at h
        cases h
      · exact ⟨fuel, _, hrun⟩
  · intro fuel fuel' r r' h h'
    obtain ⟨hmax, hx⟩ := runWith_more (Nat.le_max_left fuel fuel') h
    obtain ⟨hmax', hx'⟩ := runWith_more (Nat.le_max_right fuel fuel') h'
    rcases hpaired (max fuel fuel') with
      ⟨hnone, -⟩ | ⟨stop, m, m', hrun, hrun', xs, hxs, hxs', hclear, halong⟩
    · rw [hmax] at hnone
      cases hnone
    · cases hmax.symm.trans hrun
      cases hmax'.symm.trans hrun'
      obtain ⟨hall, hfirst, hread, hnone, hfault⟩ := halong.flushed hclear
      refine ⟨rfl, rfl, rfl, rfl, hread, xs, hx.symm.trans hxs, hx'.symm.trans hxs', hall, hfirst,
        ?_, ?_⟩
      · rw [Ran.failure_ofMachine, hnone]
        simp [Ran.ofMachine]
      · rw [Ran.failure_ofMachine]
        change (stop.map Stop.toFailure).or (m'.flush.fault.map _) = _
        rw [hfault]
        split <;> rfl

/-- A block that sends a byte, reads twice and sends what it read last. -/
def prompting : Block :=
  step (.put 0) (step (.get 0) (step (.get 0) (step (.put 0) nil)))

/-- With one byte of input the second read fails, and the byte sent after it is lost. -/
theorem read_failure_ends_output_prompting :
    let ending := Console.opened (.closing [7] .atEnd) {} .max
    let failing := Console.opened (.closing [7] (.failed .noProgress)) {} .max
    ∃ r r', prompting.runWith 0 {} { cells := #[63] } ending = some r ∧
      prompting.runWith 0 {} { cells := #[63] } failing = some r' ∧ r'.tape = r.tape ∧
      r.console.sink.received.toList = [63, 255] ∧ r'.console.sink.received.toList = [63] := by
  intro ending failing
  have hreliable : Sink.Reliable {} := fun _ _ _ => rfl
  have hsome : (prompting.runWith 0 {} { cells := #[63] } ending).isSome = true := by decide +kernel
  have hsome' : (prompting.runWith 0 {} { cells := #[63] } failing).isSome = true := by
    decide +kernel
  have hasked : prompting.exchanges? 0 {} { cells := #[63] } ending =
      some [.put 63, .got 7, .got 255, .put 255] := by decide +kernel
  obtain ⟨r, hr⟩ := Option.isSome_iff_exists.mp hsome
  obtain ⟨r', hr'⟩ := Option.isSome_iff_exists.mp hsome'
  have h := (read_failure_ends_output prompting {} { cells := #[63] } .max {} hreliable [7]
    .noProgress _ _ (Reader.delivers_ended [7]) (Reader.delivers_failed [7] .noProgress)).2 0 0 r r'
    hr hr'
  obtain ⟨htape, -, -, -, -, xs, hxs, -, hall, hfirst, -⟩ := h
  cases hasked.symm.trans hxs
  exact ⟨r, r', hr, hr', htape, hall, hfirst⟩

/-- A read failure is not just the end of the input: after one, what a block puts is lost. -/
theorem output_lost_after_read_failure :
    let block := step (.get 0) (step (.add 1 0) (step (.put 0) nil))
    let output (last : ReadEnd) := (block.runWith 0 {} { cells := #[0] }
      (Console.opened (.closing [] last) {} .zero)).map fun r => r.console.sink.received.toList
    (Reader.closing [] .atEnd).Delivers [] none ∧
      (Reader.closing [] (.failed .noProgress)).Delivers [] (some .noProgress) ∧
      output .atEnd = some [1] ∧ output (.failed .noProgress) = some [] :=
  ⟨Reader.delivers_ended [], Reader.delivers_failed [] .noProgress, by decide +kernel,
    by decide +kernel⟩

end Block

end TapeLang
