import TapeLang.Proofs.RoundTrip

namespace TapeLang.A64

namespace Assembler

/-- A call on an assembler. -/
inductive Call where
  | ask (d : Directive)
  /-- Appends a word as it is. -/
  | raw (word : UInt32) (text : Text)
  | finish

def Call.isFinish : Call → Bool
  | finish => true
  | ask _ => false
  | raw _ _ => false

/-- The calls without the finishes among them. -/
def requests (cs : List Call) : List Call := cs.filter fun c => !c.isFinish

def after (a : Assembler) : Call → Assembler
  | .ask d => a.obey d
  | .raw word text => a.raw word text
  | .finish => a.finish.1

def afterAll (a : Assembler) (cs : List Call) : Assembler := cs.foldl after a

/-- What finishing answers: the code, or the fault that keeps it back. -/
def result (a : Assembler) : Except Fault Text :=
  match a.finish with
  | (done, none) => .ok done.bytes
  | (_, some f) => .error f

def withWords (a : Assembler) (ws : Array UInt32) : Assembler := { a with words := ws }

section
variable (a : Assembler) (ws : Array UInt32)

@[simp] theorem knows_withWords (l : Label) : (a.withWords ws).knows l = a.knows l := rfl

@[simp] theorem position_withWords (l : Label) : (a.withWords ws).position? l = a.position? l := rfl

@[simp] theorem displacement_withWords (f : Fixup) :
    (a.withWords ws).displacement f = a.displacement f := rfl

theorem fail_withWords (f : Fault) : (a.withWords ws).fail f = (a.fail f).withWords ws := by
  unfold fail withWords
  split
  · rfl
  · rfl

theorem failIf_withWords (f : Option Fault) :
    (a.withWords ws).failIf f = (a.failIf f).withWords ws := by
  cases f with
  | none => rfl
  | some f => exact fail_withWords a ws f

theorem raw_withWords (word : UInt32) (text : Thunk Text) :
    (a.withWords ws).raw word text = (a.raw word text).withWords (ws ++ #[word]) := by
  simp [raw, withWords]

theorem bind_withWords (l : Label) (hsize : ws.size = a.words.size) :
    (a.withWords ws).bind l = (a.bind l).withWords ws := by
  simp only [bind, knows_withWords, position_withWords]
  by_cases hknows : a.knows l = true
  · by_cases hbound : (a.position? l).isSome = true
    · simp only [hknows, hbound, if_true, fail_withWords]
    · simp [hknows, hbound, withWords, hsize]
  · simp only [hknows, fail_withWords]
    rfl

theorem emit_withWords (i : Instr Label) : ∃ new : Array UInt32, ∀ ws, ws.size = a.words.size →
    (a.withWords ws).emit i = (a.emit i).withWords (ws ++ new) := by
  have hkeep (f : Fault) (ws : Array UInt32) :
      (a.withWords ws).fail f = (a.fail f).withWords (ws ++ #[]) := by
    rw [fail_withWords, Array.append_empty]
  simp only [emit, knows_withWords]
  cases i.refusal? with
  | some f => exact ⟨#[], fun ws _ => hkeep f ws⟩
  | none =>
    cases i.target? with
    | none => exact ⟨#[i.word], fun ws _ => by simp only [failIf_withWords, raw_withWords]⟩
    | some l =>
      by_cases hl : a.knows l = true
      · exact ⟨#[i.word], fun ws hsize => by simp [hl, raw, withWords, hsize]⟩
      · exact ⟨#[], fun ws _ => by simpa [hl] using hkeep (.branchUnknown l) ws⟩

/-- A request appends some words, the same whatever the words before them. -/
theorem after_withWords {c : Call} (hc : c.isFinish = false) :
    ∃ new : Array UInt32, ∀ ws, ws.size = a.words.size →
      (a.withWords ws).after c = (a.after c).withWords (ws ++ new) := by
  cases c with
  | finish => cases hc
  | raw word text => exact ⟨#[word], fun ws _ => by simp [after, raw, withWords]⟩
  | ask d =>
    cases d with
    | label => exact ⟨#[], fun ws _ => by simp [after, obey, addLabel, withWords]⟩
    | bind l =>
      exact ⟨#[], fun ws hsize => by rw [Array.append_empty]; exact bind_withWords a ws l hsize⟩
    | emit i => exact emit_withWords a i

end

variable {a b : Assembler} {ws : Array UInt32}

theorem Grows.after {c : Call} (hc : c.isFinish = false) (h : (a.after c).fault = none) :
    Grows a (a.after c) := by
  cases c with
  | finish => cases hc
  | ask d => exact Grows.obey h
  | raw word text =>
    refine ⟨by simp [Assembler.after, raw], ?_, fun hf => hf, fun hf => .inl hf, fun hl => hl⟩
    intro k w hk
    obtain ⟨hlt, -⟩ := Array.getElem?_eq_some_iff.mp hk
    simp only [Assembler.after, raw]
    rw [Array.getElem?_push_lt hlt]
    exact hk ▸ (Array.getElem?_eq_getElem hlt).symm

/-- A displacement that can be filled in stays what it is: labels do not move. -/
theorem Grows.displacement (h : Grows a b) {f : Fixup} {d : Int}
    (hd : a.displacement f = .ok d) : b.displacement f = .ok d := by
  obtain ⟨p, hp, rfl, hreach⟩ := displacement_ok hd
  exact displacement_eq (h.labels hp) hreach

theorem Ordered.after (ha : a.Ordered) {c : Call} (hc : c.isFinish = false)
    (h : (a.after c).fault = none) : (a.after c).Ordered := by
  cases c with
  | finish => cases hc
  | ask d => exact ha.obey h
  | raw word text =>
    refine ⟨ha.increasing, fun f hf => ?_⟩
    have := ha.within f hf
    simp only [Assembler.after, raw, Array.size_push]
    omega

theorem Ordered.unique (ha : a.Ordered) {f g : Fixup} (hf : f ∈ a.fixups.toList)
    (hg : g ∈ a.fixups.toList) (h : f.index = g.index) : f = g := by
  obtain ⟨m, hm, rfl⟩ := List.mem_iff_getElem.mp hf
  obtain ⟨n, hn, rfl⟩ := List.mem_iff_getElem.mp hg
  rcases Nat.lt_trichotomy m n with hlt | rfl | hlt
  · have := List.pairwise_iff_getElem.mp ha.increasing m n hm hn hlt
    omega
  · rfl
  · have := List.pairwise_iff_getElem.mp ha.increasing n m hn hm hlt
    omega

/-- The words of the code, with displacements filled in at some of the fixups. -/
structure Filled (a : Assembler) (ws : Array UInt32) : Prop where
  size : ws.size = a.words.size
  words : ∀ {k : Nat} {w : UInt32}, a.words[k]? = some w → ws[k]? = some w ∨
    ∃ f ∈ a.fixups.toList, f.index = k ∧ ∃ d, a.displacement f = .ok d ∧
      ws[k]? = some (w ||| f.field.encode d)

namespace Filled

theorem none_of_none (h : a.Filled ws) {k : Nat} (hk : a.words[k]? = none) : ws[k]? = none := by
  rw [Array.getElem?_eq_none_iff] at hk ⊢
  rw [h.size]
  exact hk

/-- A word without a fixup is what it was. -/
theorem untouched (h : a.Filled ws) {k : Nat} (hk : ∀ f ∈ a.fixups.toList, f.index ≠ k) :
    ws[k]? = a.words[k]? := by
  cases hword : a.words[k]? with
  | none => exact h.none_of_none hword
  | some w =>
    rcases h.words hword with hw | ⟨f, hf, hplace, -⟩
    · exact hw
    · exact absurd hplace (hk f hf)

/-- Filling in a displacement once more makes no difference. -/
theorem filled_again (h : a.Filled ws) (ha : a.Ordered) {f : Fixup} {d : Int}
    (hf : f ∈ a.fixups.toList) (hd : a.displacement f = .ok d) :
    ws[f.index]?.map (· ||| f.field.encode d) =
      a.words[f.index]?.map (· ||| f.field.encode d) := by
  cases hword : a.words[f.index]? with
  | none => rw [h.none_of_none hword]
  | some w =>
    rcases h.words hword with hw | ⟨g, hg, hplace, d', hd', hw⟩
    · rw [hw]
    · obtain rfl := ha.unique hf hg hplace.symm
      obtain rfl : d = d' := by simpa [hd] using hd'
      rw [hw, Option.map_some, Option.map_some, UInt32.or_assoc, UInt32.or_self]

theorem patch (h : a.Filled ws) (ha : a.Ordered) {f : Fixup} {d : Int}
    (hf : f ∈ a.fixups.toList) (hd : a.displacement f = .ok d) :
    a.Filled (ws.modify f.index (· ||| f.field.encode d)) := by
  refine ⟨by rw [Array.size_modify, h.size], ?_⟩
  intro k w hk
  rw [Array.getElem?_modify]
  split
  · rename_i hindex
    subst hindex
    refine .inr ⟨f, hf, rfl, d, hd, ?_⟩
    rw [h.filled_again ha hf hd, hk]
    rfl
  · exact h.words hk

theorem patchAll (h : a.Filled ws) (ha : a.Ordered) {fs : List Fixup}
    (hfs : ∀ f ∈ fs, f ∈ a.fixups.toList) :
    ∃ ws', ((a.withWords ws).patchAll fs).1 = a.withWords ws' ∧ a.Filled ws' := by
  induction fs generalizing ws with
  | nil => exact ⟨ws, rfl, h⟩
  | cons f fs ih =>
    unfold Assembler.patchAll
    rw [displacement_withWords]
    cases hd : a.displacement f with
    | error e => exact ⟨ws, rfl, h⟩
    | ok d =>
      exact ih (h.patch ha (hfs f List.mem_cons_self) hd) fun g hg =>
        hfs g (List.mem_cons_of_mem f hg)

theorem after (h : a.Filled ws) {c : Call} (hc : c.isFinish = false)
    (hfault : (a.after c).fault = none) {new : Array UInt32}
    (hnew : (a.after c).words = a.words ++ new) : (a.after c).Filled (ws ++ new) := by
  have hgrows := Grows.after hc hfault
  refine ⟨by rw [hnew, Array.size_append, Array.size_append, h.size], ?_⟩
  intro k w hk
  rw [hnew, Array.getElem?_append] at hk
  rw [Array.getElem?_append, h.size]
  split at hk
  · rename_i hlt
    rw [if_pos hlt]
    rcases h.words hk with hw | ⟨f, hf, hplace, d, hd, hw⟩
    · exact .inl hw
    · exact .inr ⟨f, hgrows.fixups hf, hplace, d, hgrows.displacement hd, hw⟩
  · rename_i hge
    rw [if_neg hge]
    exact .inl hk

end Filled

/-- Whether and where filling in stops does not depend on the words. -/
theorem patchAll_snd (a : Assembler) (ws ws' : Array UInt32) (fs : List Fixup) :
    ((a.withWords ws).patchAll fs).2 = ((a.withWords ws').patchAll fs).2 := by
  induction fs generalizing ws ws' with
  | nil => rfl
  | cons f fs ih =>
    unfold patchAll
    rw [displacement_withWords, displacement_withWords]
    cases a.displacement f with
    | error e => rfl
    | ok d => exact ih _ _

/-- Code that was finished early and code that was not are the same once they are complete. -/
theorem Filled.complete (h : a.Filled ws) (ha : a.Ordered) {done done' : Assembler}
    (hdone : a.patchAll a.fixups.toList = (done, none))
    (hdone' : (a.withWords ws).patchAll a.fixups.toList = (done', none)) :
    done.words = done'.words := by
  obtain ⟨hsame, hpatched⟩ := patchAll_words hdone ha.increasing
  obtain ⟨hsame', hpatched'⟩ := patchAll_words hdone' ha.increasing
  apply Array.ext_getElem?
  intro k
  by_cases hk : ∃ f ∈ a.fixups.toList, f.index = k
  · obtain ⟨f, hf, rfl⟩ := hk
    obtain ⟨d, hd, hword⟩ := hpatched f hf
    obtain ⟨d', hd', hword'⟩ := hpatched' f hf
    obtain rfl : d = d' := by simpa [hd] using hd'
    rw [hword, hword']
    exact (h.filled_again ha hf hd).symm
  · have hfree : ∀ f ∈ a.fixups.toList, f.index ≠ k := fun f hf hindex => hk ⟨f, hf, hindex⟩
    rw [hsame k hfree, hsame' k hfree]
    exact (h.untouched hfree).symm

section
variable {f : Fault}

theorem fail_of_fault (h : a.fault = some f) (g : Fault) : a.fail g = a := by
  simp [fail, h]

theorem fault_emit_stays (h : a.fault = some f) (i : Instr Label) : (a.emit i).fault = some f := by
  have hfail (g : Option Fault) : a.failIf g = a := by
    cases g with
    | none => rfl
    | some g => exact fail_of_fault h g
  unfold emit
  split
  · rw [fail_of_fault h]
    exact h
  · split
    · rw [hfail]
      exact h
    · split
      · exact h
      · rw [fail_of_fault h]
        exact h

theorem fault_bind_stays (h : a.fault = some f) (l : Label) : (a.bind l).fault = some f := by
  unfold bind
  split
  · split
    · rw [fail_of_fault h]
      exact h
    · exact h
  · rw [fail_of_fault h]
    exact h

theorem finish_of_fault (h : a.fault = some f) : a.finish = (a, some f) := by
  simp [finish, h]

/-- The first fault is kept, whatever is called. -/
theorem fault_stays (h : a.fault = some f) (c : Call) : (a.after c).fault = some f := by
  cases c with
  | finish => rw [after, finish_of_fault h]; exact h
  | raw word text => exact h
  | ask d =>
    cases d with
    | emit i => exact fault_emit_stays h i
    | label => exact h
    | bind l => exact fault_bind_stays h l

theorem fault_afterAll_stays (h : a.fault = some f) (cs : List Call) :
    (a.afterAll cs).fault = some f := by
  induction cs generalizing a with
  | nil => exact h
  | cons c cs ih => exact ih (fault_stays h c)

end

/-- The second is the first but for displacements that have been filled in already. -/
structure Ahead (a b : Assembler) : Prop where
  same : b = a.withWords b.words
  size : b.words.size = a.words.size
  filled : a.fault = none → a.Ordered ∧ a.Filled b.words

namespace Ahead

theorem start : Ahead {} {} where
  same := rfl
  size := rfl
  filled _ := ⟨ordered_empty, rfl, .inl⟩

theorem request (h : Ahead a b) {c : Call} (hc : c.isFinish = false) :
    Ahead (a.after c) (b.after c) := by
  obtain ⟨new, hnew⟩ := after_withWords a hc
  have hwords : (a.after c).words = a.words ++ new := congrArg words (hnew a.words rfl)
  have hnext : b.after c = (a.after c).withWords (b.words ++ new) := by
    rw [h.same]
    exact hnew b.words h.size
  have hwords' : (b.after c).words = b.words ++ new := congrArg words hnext
  refine ⟨by rw [hwords']; exact hnext, ?_, ?_⟩
  · rw [hwords, hwords', Array.size_append, Array.size_append, h.size]
  · intro hfault
    have hbefore : a.fault = none := by
      cases hf : a.fault with
      | none => rfl
      | some f => simp [fault_stays hf c] at hfault
    obtain ⟨hordered, hfilled⟩ := h.filled hbefore
    rw [hwords']
    exact ⟨hordered.after hc hfault, hfilled.after hc hfault hwords⟩

theorem fault_eq (h : Ahead a b) : b.fault = a.fault := by
  rw [h.same]
  rfl

theorem finish_eq (h : Ahead a b) (hfault : a.fault = none) :
    b.finish = (a.withWords b.words).patchAll a.fixups.toList := by
  have hb : b.fault = none := h.fault_eq.trans hfault
  have hfixups : b.fixups = a.fixups := by
    rw [h.same]
    rfl
  rw [finish, hb, hfixups, ← h.same]

/-- An early finish fills in some displacements more. -/
theorem finish (h : Ahead a b) : Ahead a b.finish.1 := by
  cases hfault : a.fault with
  | some f => rwa [finish_of_fault (h.fault_eq.trans hfault)]
  | none =>
    obtain ⟨hordered, hfilled⟩ := h.filled hfault
    obtain ⟨ws, hws, hfilled'⟩ := hfilled.patchAll hordered fun f hf => hf
    rw [h.finish_eq hfault, hws]
    exact ⟨rfl, hfilled'.size, fun _ => ⟨hordered, hfilled'⟩⟩

theorem afterAll (h : Ahead a b) (cs : List Call) :
    Ahead (a.afterAll (requests cs)) (b.afterAll cs) := by
  induction cs generalizing a b with
  | nil => exact h
  | cons c cs ih =>
    cases hc : c.isFinish with
    | false =>
      have hrequests : requests (c :: cs) = c :: requests cs := by simp [requests, hc]
      rw [hrequests]
      exact ih (h.request hc)
    | true =>
      have hrequests : requests (c :: cs) = requests cs := by simp [requests, hc]
      rw [hrequests]
      cases c with
      | finish => exact ih h.finish
      | ask | raw => cases hc

/-- Both finish alike: with the same fault, or with the same code. -/
theorem finish_alike (h : Ahead a b) :
    b.finish.2 = a.finish.2 ∧ (a.finish.2 = none → b.finish.1 = a.finish.1) := by
  cases hfault : a.fault with
  | some f =>
    rw [finish_of_fault hfault, finish_of_fault (h.fault_eq.trans hfault)]
    exact ⟨rfl, fun hnone => by cases hnone⟩
  | none =>
    obtain ⟨hordered, hfilled⟩ := h.filled hfault
    have hstart : a.Filled a.words := ⟨rfl, .inl⟩
    have hfinish : a.finish = (a.withWords a.words).patchAll a.fixups.toList := by
      rw [Assembler.finish, hfault]
      rfl
    obtain ⟨ws, hws, -⟩ := hstart.patchAll hordered fun f hf => hf
    obtain ⟨ws', hws', -⟩ := hfilled.patchAll hordered fun f hf => hf
    have hstop := patchAll_snd a b.words a.words a.fixups.toList
    rw [h.finish_eq hfault, hfinish]
    refine ⟨hstop, fun hnone => ?_⟩
    have hwords := hfilled.complete hordered (Prod.ext hws hnone)
      (Prod.ext hws' (hstop.trans hnone))
    have hsame : ws = ws' := hwords
    rw [hws, hws', hsame]

end Ahead

theorem result_error {f : Fault} (h : a.finish.2 = some f) : a.result = .error f := by
  rw [result, show a.finish = (a.finish.1, some f) from Prod.ext rfl h]

theorem result_ok (h : a.finish.2 = none) : a.result = .ok a.finish.1.bytes := by
  rw [result, show a.finish = (a.finish.1, none) from Prod.ext rfl h]

/-- Whatever is called, with finishes among the calls that succeed or fail: the last finish gives
what it gives without them, the same code or the same fault, and with the code the same listing. A
fault that a request leaves behind first is what every finish after it gives. -/
theorem finish_any_time :
    (∀ cs cs' : List Call, requests cs = requests cs' →
      (({} : Assembler).afterAll cs).result = (({} : Assembler).afterAll cs').result ∧
      ∀ code, (({} : Assembler).afterAll cs).result = .ok code →
        (({} : Assembler).afterAll cs).finish.1.listing =
          (({} : Assembler).afterAll cs').finish.1.listing) ∧
    ∀ (cs later : List Call) (c : Call) (f : Fault),
      (({} : Assembler).afterAll cs).fault = none →
      ((({} : Assembler).afterAll cs).after c).fault = some f →
      (({} : Assembler).afterAll (cs ++ c :: later)).result = .error f := by
  constructor
  · intro cs cs' hsame
    obtain ⟨hstop, hdone⟩ := (Ahead.start.afterAll cs).finish_alike
    obtain ⟨hstop', hdone'⟩ := (Ahead.start.afterAll cs').finish_alike
    rw [hsame] at hstop hdone
    cases hplain : (({} : Assembler).afterAll (requests cs')).finish.2 with
    | some f =>
      rw [result_error (hstop.trans hplain), result_error (hstop'.trans hplain)]
      exact ⟨rfl, fun code hcode => by cases hcode⟩
    | none =>
      rw [result_ok (hstop.trans hplain), result_ok (hstop'.trans hplain), hdone hplain,
        hdone' hplain]
      exact ⟨rfl, fun _ _ => rfl⟩
  · intro cs later c f _ hf
    have hlast : (({} : Assembler).afterAll (cs ++ c :: later)).fault = some f := by
      rw [afterAll, List.foldl_append]
      exact fault_afterAll_stays hf later
    exact result_error (by rw [finish_of_fault hlast])

/-- A loop whose label is bound after a first finish has failed, with finishes all along; and the
same calls with the last finish only. -/
def impatient : List Call :=
  [ .ask .label, .ask .label, .ask (.bind 0), .ask (.emit (.branchIfZero 255 1)), .finish,
    .raw 0xFFFFFFFF [], .ask (.emit (.branch 0)), .finish, .ask (.bind 1), .finish, .finish,
    .ask (.emit (.branchIfBit 0 7 1)) ]

def patient : List Call :=
  [ .ask .label, .ask .label, .ask (.bind 0), .ask (.emit (.branchIfZero 255 1)),
    .raw 0xFFFFFFFF [], .ask (.emit (.branch 0)), .ask (.bind 1),
    .ask (.emit (.branchIfBit 0 7 1)) ]

theorem finish_any_time_impatient :
    requests impatient = requests patient ∧
      (∃ code, (({} : Assembler).afterAll patient).result = .ok code) ∧
      (({} : Assembler).afterAll impatient).result = (({} : Assembler).afterAll patient).result ∧
      (({} : Assembler).afterAll impatient).finish.1.listing =
        (({} : Assembler).afterAll patient).finish.1.listing ∧
      (({} : Assembler).afterAll
        (impatient ++ .ask (.bind 1) :: [.finish, .ask (.bind 9)])).result =
        .error (.boundTwice 1) := by
  obtain ⟨halike, hstays⟩ := finish_any_time
  obtain ⟨hresult, hlisting⟩ := halike impatient patient rfl
  refine ⟨rfl, ⟨_, rfl⟩, hresult, hlisting _ rfl, hstays impatient _ _ _ ?_ ?_⟩
  · rfl
  · rfl

end Assembler

end TapeLang.A64
