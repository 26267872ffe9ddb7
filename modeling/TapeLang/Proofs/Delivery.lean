import TapeLang.Console

namespace TapeLang

/-- The device after a request for a byte. -/
def Reply.device {δ : Type} : Reply δ → δ
  | byte _ d => d
  | keep d => d
  | crash _ d => d

namespace Console

/-- Writing leaves the input side alone. -/
theorem settle_input (c : Console) :
    c.settle.reader = c.reader ∧ c.settle.policy = c.policy ∧ c.settle.read = c.read := by
  unfold settle writePending
  split
  · split <;> exact ⟨rfl, rfl, rfl⟩
  · exact ⟨rfl, rfl, rfl⟩

/-- Something asked of a console. -/
inductive Call where
  | put (b : UInt8)
  | get
  | flush
deriving DecidableEq, Repr

/-- The console after a call. -/
def after (c : Console) : Call → Console
  | .put b => c.put b
  | .get => c.get.device
  | .flush => c.flush

def afterAll (c : Console) (calls : List Call) : Console := calls.foldl after c

/-- The bytes that the calls put, in order. -/
def puts : List Call → Text
  | [] => []
  | .put b :: rest => b :: puts rest
  | .get :: rest => puts rest
  | .flush :: rest => puts rest

/-- A console on fresh streams. -/
def opened (reader : Reader) (sink : Sink) (policy : EndPolicy) : Console :=
  { reader, sink, policy }

/-- The read of a request, which leaves pending output alone. -/
def fetch (c : Console) : Reply Console :=
  match c.reader.readByte with
  | .byte b reader => .byte b { c with reader, read := c.read + 1 }
  | .ended .atEnd reader => { c with reader }.endReply
  | .ended (.failed f) reader => ({ c with reader }.noteFault f).endReply
  | .crash reason reader => .crash reason { c with reader }

/-- A request writes the pending output and then reads. -/
theorem get_eq (c : Console) : c.get = c.settle.fetch := rfl

/-- A first part of the pending output goes to the sink and the rest waits on. No fault means that
nothing had to wait. -/
theorem writePending_split (c : Console) :
    ∃ gone, c.writePending.sink.received.toList = c.sink.received.toList ++ gone ∧
      gone ++ c.writePending.pending.toList = c.pending.toList ∧
      c.writePending.written = c.written ∧
      (c.writePending.fault = none → c.writePending.pending = #[]) := by
  unfold writePending
  split
  · rename_i hempty
    refine ⟨[], by simp, rfl, rfl, fun _ => ?_⟩
    simpa using hempty
  · generalize hg : c.sink.rule c.sink.received.size c.sink.writes.size c.pending.size = grant
    simp only [Sink.write, hg]
    refine ⟨c.pending.toList.take (min grant.stored c.pending.size), ?_, ?_, trivial, ?_⟩
    · simp
    · simp [List.take_of_length_le]
    · intro hfault
      split at hfault
      · cases hfault
      · rename_i hall
        apply Array.eq_empty_of_size_eq_zero
        simp only [Array.size_extract]
        omega

/-- What became of the bytes `sent` to a console whose sink held `before`. As long as there is no
fault each of them was counted and is either in the sink or waiting. -/
structure Delivering (before sent : Text) (c : Console) : Prop where
  held : c.sink.received.toList <+: before ++ sent
  whole : c.fault = none →
    c.sink.received.toList ++ c.pending.toList = before ++ sent ∧ c.written = sent.length

namespace Delivering

variable {before sent : Text} {c d : Console}

theorem opened (reader : Reader) (sink : Sink) (policy : EndPolicy) :
    Delivering sink.received.toList [] (opened reader sink policy) where
  held := by simp [Console.opened]
  whole _ := by simp [Console.opened]

theorem settle (h : Delivering before sent c) : Delivering before sent c.settle := by
  unfold Console.settle
  split
  · rename_i hfault
    obtain ⟨hwhole, hcount⟩ := h.whole (by simpa using hfault)
    obtain ⟨gone, hsink, hpending, hwritten, -⟩ := writePending_split c
    have hall : c.writePending.sink.received.toList ++ c.writePending.pending.toList =
        before ++ sent := by
      rw [hsink, List.append_assoc, hpending, hwhole]
    exact ⟨⟨_, hall⟩, fun _ => ⟨hall, hwritten.trans hcount⟩⟩
  · exact h

/-- A console that settles without a fault has nothing left to write. -/
theorem settled (h : Delivering before sent c) (hfault : c.settle.fault = none) :
    c.settle.sink.received.toList = before ++ sent ∧ c.settle.written = sent.length := by
  obtain ⟨hwhole, hcount⟩ := h.settle.whole hfault
  have hempty : c.settle.pending = #[] := by
    unfold Console.settle at hfault ⊢
    split at hfault
    · rename_i hnone
      obtain ⟨-, -, -, -, hdone⟩ := writePending_split c
      rw [if_pos hnone]
      exact hdone hfault
    · rename_i hsome
      simp [hfault] at hsome
  rw [hempty] at hwhole
  exact ⟨by simpa using hwhole, hcount⟩

/-- A byte that is put waits, unless a stream has failed. -/
theorem push (h : Delivering before sent c) (b : UInt8) :
    Delivering before (sent ++ [b]) (if c.fault.isNone then
      { c with pending := c.pending.push b, written := c.written + 1 } else c) := by
  have hheld : c.sink.received.toList <+: before ++ (sent ++ [b]) := by
    rw [← List.append_assoc]
    exact h.held.trans (List.prefix_append _ _)
  split
  · rename_i hnone
    obtain ⟨hwhole, hcount⟩ := h.whole (by simpa using hnone)
    refine ⟨hheld, fun _ => ⟨?_, by simp [hcount]⟩⟩
    rw [Array.toList_push, ← List.append_assoc, ← List.append_assoc, hwhole]
  · rename_i hsome
    refine ⟨hheld, fun hnone => ?_⟩
    simp [hnone] at hsome

theorem put (h : Delivering before sent c) (b : UInt8) :
    Delivering before (sent ++ [b]) (c.put b) := by
  unfold Console.put
  dsimp only
  split
  · exact h.push b
  · exact h.settle.push b

/-- Only the output side of a console matters, and a fault more does no harm. -/
theorem congr (h : Delivering before sent c) (hsink : d.sink = c.sink)
    (hpending : d.pending = c.pending) (hwritten : d.written = c.written)
    (hfault : d.fault = none → c.fault = none) : Delivering before sent d where
  held := hsink ▸ h.held
  whole hnone := by
    rw [hsink, hpending, hwritten]
    exact h.whole (hfault hnone)

end Delivering

theorem device_endReply (c : Console) : c.endReply.device = c := by
  unfold endReply
  split <;> rfl

theorem fault_noteFault (c : Console) (f : Fault) :
    (c.noteFault f).fault = some (c.fault.getD f) := by
  unfold noteFault
  cases hc : c.fault <;> simp [hc]

/-- A read changes nothing on the output side, except that it may record the first fault. -/
theorem fetch_output (c : Console) :
    c.fetch.device.sink = c.sink ∧ c.fetch.device.pending = c.pending ∧
      c.fetch.device.written = c.written ∧
      (c.fetch.device.fault = c.fault ∨ ∃ f reader, c.reader.readByte = .ended (.failed f) reader ∧
        c.fetch.device.fault = some (c.fault.getD f)) := by
  unfold fetch
  cases c.reader.readByte with
  | byte b reader => exact ⟨rfl, rfl, rfl, .inl rfl⟩
  | crash reason reader => exact ⟨rfl, rfl, rfl, .inl rfl⟩
  | ended e reader =>
    cases e with
    | atEnd => simp [device_endReply]
    | failed f =>
      simp only [device_endReply]
      have hfault := fault_noteFault { c with reader } f
      refine ⟨?_, ?_, ?_, .inr ⟨f, reader, rfl, hfault⟩⟩ <;> unfold noteFault <;> split <;> rfl

theorem Delivering.after {before sent : Text} {c : Console} (h : Delivering before sent c)
    (call : Call) : Delivering before (sent ++ puts [call]) (c.after call) := by
  cases call with
  | put b => exact h.put b
  | flush =>
    simp only [puts, List.append_nil]
    exact h.settle
  | get =>
    simp only [puts, List.append_nil]
    obtain ⟨hsink, hpending, hwritten, hfault⟩ := fetch_output c.settle
    refine h.settle.congr hsink hpending hwritten fun hnone => ?_
    change c.settle.fetch.device.fault = none at hnone
    rcases hfault with hsame | ⟨f, -, -, hsome⟩
    · rw [← hsame, hnone]
    · rw [hsome] at hnone
      cases hnone

theorem puts_cons (call : Call) (calls : List Call) :
    puts (call :: calls) = puts [call] ++ puts calls := by
  cases call <;> rfl

theorem Delivering.afterAll {before sent : Text} {c : Console} (h : Delivering before sent c)
    (calls : List Call) : Delivering before (sent ++ puts calls) (c.afterAll calls) := by
  induction calls generalizing c sent with
  | nil => simpa [puts, Console.afterAll] using h
  | cons call calls ih =>
    rw [puts_cons, ← List.append_assoc]
    exact ih (h.after call)

/-- A console with a fault keeps it, and its sink is left alone. -/
theorem after_failed {c : Console} {f : Fault} (h : c.fault = some f) (call : Call) :
    (c.after call).fault = some f ∧ (c.after call).sink = c.sink := by
  have hsettle : c.settle = c := by simp [settle, h]
  cases call with
  | put b => simp [after, put, hsettle, h]
  | flush =>
    change c.settle.fault = some f ∧ c.settle.sink = c.sink
    rw [hsettle]
    exact ⟨h, rfl⟩
  | get =>
    change c.settle.fetch.device.fault = some f ∧ c.settle.fetch.device.sink = c.sink
    rw [hsettle]
    obtain ⟨hsink, -, -, hfault⟩ := fetch_output c
    refine ⟨?_, hsink⟩
    rcases hfault with hsame | ⟨g, -, -, hsome⟩
    · rw [hsame, h]
    · rw [hsome, h]
      rfl

theorem afterAll_failed {c : Console} {f : Fault} (h : c.fault = some f) (calls : List Call) :
    (c.afterAll calls).fault = some f ∧ (c.afterAll calls).sink = c.sink := by
  induction calls generalizing c with
  | nil => exact ⟨h, rfl⟩
  | cons call calls ih =>
    obtain ⟨hfault, hsink⟩ := after_failed h call
    obtain ⟨hfault', hsink'⟩ := ih hfault
    exact ⟨hfault', hsink'.trans hsink⟩

/-- The sink does not take all of the pending output, or reports a fault when it is written. -/
def Refused (c : Console) : Prop :=
  (c.sink.write c.pending).2.stored < c.pending.size ∨ (c.sink.write c.pending).2.fault ≠ none

theorem refused_of_settle {c : Console} (h : c.fault = none) (hfault : c.settle.fault ≠ none) :
    c.Refused := by
  unfold settle writePending at hfault
  simp only [h, Option.isNone_none, if_true] at hfault
  split at hfault
  · exact absurd h hfault
  · dsimp only at hfault
    split at hfault
    · rename_i hshort
      exact .inl hshort
    · exact .inr hfault

/-- A byte for which there is no room comes after the pending output was written. -/
theorem put_output (b : UInt8) (c : Console) :
    (c.put b).fault = (if c.pending.size < capacity then c else c.settle).fault ∧
      (c.put b).sink = (if c.pending.size < capacity then c else c.settle).sink := by
  unfold put
  dsimp only
  generalize (if c.pending.size < capacity then c else c.settle) = d
  split
  · exact ⟨rfl, rfl⟩
  · exact ⟨rfl, rfl⟩

/-- A fault has a cause: a write that the sink refuses, or a read that fails. -/
theorem cause_of_fault {c : Console} (h : c.fault = none) {call : Call}
    (hfault : (c.after call).fault ≠ none) :
    c.Refused ∨ call = .get ∧ ∃ f reader, c.reader.readByte = .ended (.failed f) reader := by
  cases call with
  | flush => exact .inl (refused_of_settle h hfault)
  | put b =>
    rw [after, (put_output b c).1] at hfault
    split at hfault
    · exact absurd h hfault
    · exact .inl (refused_of_settle h hfault)
  | get =>
    obtain ⟨-, -, -, hread⟩ := fetch_output c.settle
    change c.settle.fetch.device.fault ≠ none at hfault
    rcases hread with hsame | ⟨f, reader, hfailed, -⟩
    · rw [hsame] at hfault
      exact .inl (refused_of_settle h hfault)
    · rw [c.settle_input.1] at hfailed
      exact .inr ⟨rfl, f, reader, hfailed⟩

theorem afterAll_concat (c : Console) (calls : List Call) (call : Call) :
    c.afterAll (calls ++ [call]) = (c.afterAll calls).after call :=
  List.foldl_append

/-- Output waits as long as there is room for it. -/
theorem afterAll_puts {c : Console} (h : c.fault = none) {bs : Text}
    (hroom : c.pending.size + bs.length ≤ capacity) :
    c.afterAll (bs.map .put) =
      { c with pending := c.pending ++ bs, written := c.written + bs.length } := by
  induction bs generalizing c with
  | nil => simp [afterAll]
  | cons b bs ih =>
    rw [List.length_cons] at hroom
    have hput : c.put b = { c with pending := c.pending.push b, written := c.written + 1 } := by
      have hlt : c.pending.size < capacity := by omega
      simp [put, hlt, h]
    change (c.put b).afterAll (bs.map .put) = _
    have hroom' : (c.pending.push b).size + bs.length ≤ capacity := by
      rw [Array.size_push]
      omega
    rw [hput, ih (c := { c with pending := c.pending.push b, written := c.written + 1 }) h hroom']
    simp [Nat.add_assoc, Nat.add_comm 1]

/-- A write that stores less than all of the pending output is a fault. -/
theorem settle_short {c : Console} (h : c.fault = none)
    (hshort : (c.sink.write c.pending).2.stored < c.pending.size) :
    c.settle.fault = some ((c.sink.write c.pending).2.fault.getD .shortWrite) ∧
      c.settle.sink = (c.sink.write c.pending).1 := by
  have hsome : c.pending.isEmpty = false := by
    rw [Array.isEmpty_eq_false_iff, ← Array.size_pos_iff]
    omega
  simp [settle, h, writePending, hsome, hshort]

/-- A sink with less room than a full buffer needs gets nothing before the next byte, which brings
the fault and is lost. -/
theorem put_full {limit : Nat} (hlimit : limit < capacity) (fault : Option Fault) {bs : Text}
    (hbs : bs.length = capacity) (reader : Reader) (policy : EndPolicy) (b : UInt8) :
    let c := (opened reader (.limited limit fault) policy).afterAll (bs.map .put)
    c.fault = none ∧ c.sink.received = #[] ∧
      (c.put b).fault = some (fault.getD .shortWrite) ∧
      (c.put b).sink.received.toList = bs.take limit := by
  intro c
  let start := opened reader (.limited limit fault) policy
  have hroom : start.pending.size + bs.length ≤ capacity := by simp [start, opened, hbs]
  have hc : c = _ := afterAll_puts (c := start) rfl hroom
  obtain ⟨hfault, hsink, hpending⟩ : c.fault = none ∧ c.sink = .limited limit fault ∧
      c.pending.toList = bs := by
    rw [hc]
    exact ⟨rfl, rfl, by simp [start, opened]⟩
  have hsize : c.pending.size = capacity := by rw [← Array.length_toList, hpending, hbs]
  have hfull : ¬ c.pending.size < capacity := by omega
  have hover : c.pending.size > limit := by omega
  obtain ⟨hstored, hreport, hreceived⟩ : (c.sink.write c.pending).2.stored = limit ∧
      (c.sink.write c.pending).2.fault = fault ∧
      (c.sink.write c.pending).1.received = c.pending.extract 0 limit := by
    rw [hsink]
    simp [Sink.write, Sink.limited, hover, Nat.min_eq_left (Nat.le_of_lt hover)]
  obtain ⟨hbroken, hkept⟩ := settle_short hfault (by omega)
  obtain ⟨hput, hput'⟩ := put_output b c
  rw [if_neg hfull] at hput hput'
  refine ⟨hfault, by rw [hsink]; rfl, ?_, ?_⟩
  · rw [hput, hbroken, hreport]
  · rw [hput', hkept, hreceived, ← hpending]
    simp

/-- Output is neither lost, doubled nor reordered. After any calls on fresh streams, whatever the
reader gives and however much of each write the sink takes: the sink has a first part of what was
put; a flush without a fault leaves it with all of that, and every byte counted; a request that
comes to its read without a fault finds it so, and writes nothing after it; a fault comes from a
write that the sink refuses or from a read that fails; and once there is a fault, every later flush
reports that one and the sink is as it was. -/
theorem output_delivered (reader : Reader) (sink : Sink) (policy : EndPolicy)
    (calls : List Call) :
    let c := (opened reader sink policy).afterAll calls
    let all := sink.received.toList ++ puts calls
    c.sink.received.toList <+: all ∧
      (c.flush.fault = none →
        c.flush.sink.received.toList = all ∧ c.flush.written = (puts calls).length) ∧
      (c.get = c.settle.fetch ∧ c.settle.reader = c.reader ∧
        c.get.device.sink = c.settle.sink ∧ c.get.device.pending = c.settle.pending ∧
        (c.settle.fault = none → c.settle.sink.received.toList = all)) ∧
      (c.fault = none → ∀ call, (c.after call).fault ≠ none →
        c.Refused ∨ call = .get ∧ ∃ f reader', c.reader.readByte = .ended (.failed f) reader') ∧
      ∀ f, c.fault = some f → ∀ later,
        (c.afterAll later).flush.fault = some f ∧ (c.afterAll later).flush.sink = c.sink ∧
          (c.afterAll later).sink = c.sink := by
  intro c all
  have h : Delivering sink.received.toList (puts calls) c := by
    simpa using (Delivering.opened reader sink policy).afterAll calls
  obtain ⟨hsink, hpending, -⟩ := fetch_output c.settle
  refine ⟨h.held, h.settled, ⟨get_eq c, c.settle_input.1, hsink, hpending,
    fun hnone => (h.settled hnone).1⟩, fun hnone _ => cause_of_fault hnone, ?_⟩
  intro f hf later
  obtain ⟨hfault, hsink⟩ := afterAll_failed hf later
  obtain ⟨hflush, hsame⟩ := after_failed hfault .flush
  exact ⟨hflush, hsame.trans hsink, hsink⟩

/-- A console that has output for a full buffer, on a sink with room for a byte less. -/
def brimful : Console :=
  (opened .empty (.limited 4095 none) .zero).afterAll ((List.replicate capacity 7).map .put)

/-- A sink with room for two bytes gets both of them. The console whose buffer is full fails at the
next byte, and its sink keeps what it stored. -/
theorem output_delivered_boundary :
    ((opened .empty (.limited 2 none) .zero).afterAll [.put 1, .get, .put 2]).flush.fault = none ∧
    ((opened .empty (.limited 2 none) .zero).afterAll
      [.put 1, .get, .put 2]).flush.sink.received.toList = [1, 2] ∧
    brimful.fault = none ∧ brimful.sink.received = #[] ∧
    (brimful.put 8).fault = some .shortWrite ∧
    (brimful.put 8).sink.received.toList = (List.replicate capacity 7).take 4095 ∧
    ∀ later, ((brimful.put 8).afterAll later).flush.fault = some .shortWrite ∧
      ((brimful.put 8).afterAll later).sink = (brimful.put 8).sink := by
  have hflush : ((opened .empty (.limited 2 none) .zero).afterAll
      [.put 1, .get, .put 2]).flush.fault = none := rfl
  obtain ⟨hfault, hsink, hput, hstored⟩ : brimful.fault = none ∧ brimful.sink.received = #[] ∧
      (brimful.put 8).fault = some .shortWrite ∧
      (brimful.put 8).sink.received.toList = (List.replicate capacity 7).take 4095 := by
    unfold brimful
    exact put_full (by decide : 4095 < capacity) none List.length_replicate .empty .zero 8
  refine ⟨hflush, ((output_delivered _ _ _ _).2.1 hflush).1, hfault, hsink, hput, hstored, ?_⟩
  intro later
  have hlast : (opened .empty (.limited 4095 none) .zero).afterAll
      ((List.replicate capacity 7).map .put ++ [.put 8]) = brimful.put 8 := by
    rw [afterAll_concat, after, brimful]
  have hafter := output_delivered .empty (.limited 4095 none) .zero
    ((List.replicate capacity 7).map .put ++ [.put 8])
  simp only [hlast] at hafter
  obtain ⟨-, -, -, -, hkept⟩ := hafter
  obtain ⟨hagain, -, hsame⟩ := hkept .shortWrite hput later
  exact ⟨hagain, hsame⟩

end Console

end TapeLang
