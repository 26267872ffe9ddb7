import TapeLang.Proofs.Hosting

namespace TapeLang.Native

namespace Registry

variable {r : Registry} {handle other : UInt64}

theorem find_update_ne (f : Session → Session) (h : other ≠ handle) :
    (r.update handle f).find? other = r.find? other := by
  unfold find? update
  dsimp only
  induction r.sessions with
  | nil => rfl
  | cons entry rest ih =>
    obtain ⟨k, s⟩ := entry
    rw [List.map_cons, List.lookup_cons, List.lookup_cons]
    by_cases hk : other = k
    · subst hk
      simp [h]
    · have hk' : (other == k) = false := by simpa using hk
      simp only [hk']
      exact ih

/-- What is not there is not changed. -/
theorem update_of_not_live (f : Session → Session) (h : r.find? handle = none) :
    r.update handle f = r := by
  obtain ⟨sessions, last⟩ := r
  unfold find? at h
  unfold update
  dsimp only at h ⊢
  congr 1
  induction sessions with
  | nil => rfl
  | cons entry rest ih =>
    obtain ⟨k, s⟩ := entry
    rw [List.lookup_cons] at h
    by_cases hk : handle = k
    · simp [hk] at h
    · have hk' : (handle == k) = false := by simpa using hk
      simp only [hk'] at h
      rw [List.map_cons, ih h]
      simp [Ne.symm hk]

theorem find_unregister :
    (r.unregister handle).find? other = if other = handle then none else r.find? other := by
  unfold find? unregister
  dsimp only
  induction r.sessions with
  | nil => simp
  | cons entry rest ih =>
    obtain ⟨k, s⟩ := entry
    rw [List.filter_cons, List.lookup_cons]
    by_cases ho : other = k
    · by_cases hk : k = handle
      · simpa [ho, hk] using ih
      · simp [ho, hk]
    · have ho' : (other == k) = false := by simpa using ho
      by_cases hk : k = handle
      · subst hk
        simpa [ho'] using ih
      · simp [hk, List.lookup_cons, ho', ih]

theorem find_register (s : Session) : (r.register s).2.find? (r.register s).1 = some s := by
  simp [register, find?]

theorem find_register_ne (s : Session) (h : other ≠ (r.register s).1) :
    (r.register s).2.find? other = r.find? other := by
  have h' : (other == r.last + 1) = false := by simpa [register] using h
  simp [register, find?, List.lookup_cons, h']

end Registry

namespace SessionTable

/-- A step of some run. -/
inductive Call where
  | register (console : Console) (tapeSize : Int64)
  | unregister (handle : UInt64)
  | put (handle value : UInt64)
  | get (handle : UInt64)
  | trap (handle index : UInt64)

namespace Call

def registers : Call → Bool
  | register .. => true
  | _ => false

/-- The handle that a call of a host routine is made with. -/
def handle? : Call → Option UInt64
  | put handle _ => some handle
  | get handle => some handle
  | trap handle _ => some handle
  | _ => none

end Call

/-- What a step answers, and the table after it. -/
def serve (t : SessionTable) : Call → Except Text UInt64 × SessionTable
  | .register console tapeSize =>
    let (handle, t) := t.register { console, tapeSize }
    (.ok handle, t)
  | .unregister handle => (.ok 0, t.unregister handle)
  | .put handle value => (.ok 0, t.put handle value)
  | .get handle => t.get handle
  | .trap handle index => (.ok 0, t.trap handle index)

def after (t : SessionTable) (c : Call) : SessionTable := (t.serve c).2

def afterAll (t : SessionTable) (calls : List Call) : SessionTable := calls.foldl after t

def registrations (calls : List Call) : Nat := calls.countP Call.registers

/-- The handles given out, in order. -/
def issued : SessionTable → List Call → List UInt64
  | _, [] => []
  | t, .register console tapeSize :: rest =>
    let (handle, t) := t.register { console, tapeSize }
    handle :: issued t rest
  | t, c :: rest => issued (t.after c) rest

end SessionTable

open SessionTable

/-- What a host routine does to the session under its handle. -/
def Session.act (s : Session) : Call → Session
  | .put _ value => { s with console := s.console.put value.toUInt8 }
  | .get _ =>
    match s.console.get with
    | .byte _ console => { s with console }
    | .keep console => { s with console }
    | .crash _ console => { s with console }
  | .trap _ index => s.noteTrap index.toInt64
  | _ => s

namespace Session

variable (s : Session)

theorem trap_noteTrap (address : Int64) :
    (s.noteTrap address).trap = s.trap.or (some { address, tapeSize := s.tapeSize }) := by
  unfold noteTrap
  cases h : s.trap <;> simp [h]

theorem tapeSize_act (c : Call) : (s.act c).tapeSize = s.tapeSize := by
  cases c with
  | register console tapeSize => rfl
  | unregister handle => rfl
  | put handle value => rfl
  | get handle =>
    unfold act
    cases s.console.get <;> rfl
  | trap handle index =>
    simp only [act, noteTrap]
    split <;> rfl

theorem trap_act_get (handle : UInt64) : (s.act (.get handle)).trap = s.trap := by
  unfold act
  cases s.console.get <;> rfl

end Session

/-- A session by itself, and whether it can still be reached. -/
structure Solo where
  session : Session
  live : Bool := true

/-- What a step does to the session under `handle` if there is no other. -/
def Solo.after (handle : UInt64) (x : Solo) (c : Call) : Solo :=
  if x.live then
    match c with
    | .register .. => x
    | .unregister h => { x with live := h != handle }
    | c => if c.handle? = some handle then { x with session := x.session.act c } else x
  else x

/-- The index of the first trap reported under a handle while it is live. -/
def firstReport (handle : UInt64) : List Call → Option UInt64
  | [] => none
  | .trap h index :: rest => if h = handle then some index else firstReport handle rest
  | .unregister h :: rest => if h = handle then none else firstReport handle rest
  | _ :: rest => firstReport handle rest

namespace Solo

variable {x : Solo} {g : UInt64}

/-- A session that cannot be reached any more stays as it is. -/
theorem foldl_not_live (hx : x.live = false) (calls : List Call) :
    calls.foldl (Solo.after g) x = x := by
  induction calls with
  | nil => rfl
  | cons c rest ih => simpa [Solo.after, hx] using ih

/-- A trap that is noted is the first one. -/
theorem foldl_trap (hx : x.live = true) (calls : List Call) :
    (calls.foldl (Solo.after g) x).session.trap = x.session.trap.or ((firstReport g calls).map
      fun index => { address := index.toInt64, tapeSize := x.session.tapeSize }) := by
  induction calls generalizing x with
  | nil => simp [firstReport]
  | cons c rest ih =>
    obtain ⟨s, live⟩ := x
    cases hx
    rw [List.foldl_cons]
    cases c with
    | register console tapeSize => exact ih rfl
    | unregister h =>
      by_cases hg : h = g
      · have hdead : (Solo.after g { session := s } (.unregister h)).live = false := by
          simp [Solo.after, hg]
        rw [foldl_not_live hdead]
        simp [Solo.after, firstReport, hg]
      · have hlive : (h != g) = true := by simpa using hg
        simpa [Solo.after, firstReport, hg, hlive] using ih (x := { session := s }) rfl
    | put h value =>
      by_cases hg : h = g
      · simpa [Solo.after, firstReport, Call.handle?, hg, Session.act] using
          ih (x := { session := s.act (.put g value) }) rfl
      · simpa [Solo.after, firstReport, Call.handle?, hg] using ih (x := { session := s }) rfl
    | get h =>
      by_cases hg : h = g
      · simpa [Solo.after, firstReport, Call.handle?, hg, s.trap_act_get, s.tapeSize_act] using
          ih (x := { session := s.act (.get g) }) rfl
      · simpa [Solo.after, firstReport, Call.handle?, hg] using ih (x := { session := s }) rfl
    | trap h index =>
      by_cases hg : h = g
      · -- from here on there is a trap, whatever is reported later
        subst hg
        have hrest := ih (x := { session := s.act (.trap h index) }) rfl
        simp only [Session.act, s.trap_noteTrap, Option.or_assoc, Option.some_or] at hrest
        simpa [Solo.after, firstReport, Call.handle?, Session.act] using hrest
      · simpa [Solo.after, firstReport, Call.handle?, hg] using ih (x := { session := s }) rfl

end Solo

namespace SessionTable

variable {t : SessionTable} {c : Call} {h g : UInt64}

section Host

/-- All that a host routine can do: nothing under a handle that is not live, else change the session
under it. -/
theorem host_cases (hc : c.handle? = some h) :
    (t.registry.find? h = none ∧ t.after c = t) ∨
    ∃ s f, t.registry.find? h = some s ∧ f s = s.act c ∧
      t.after c = { t with registry := t.registry.update h f } := by
  cases hs : t.registry.find? h with
  | none =>
    left
    refine ⟨rfl, ?_⟩
    cases c with
    | register console tapeSize => cases hc
    | unregister handle => cases hc
    | put handle value =>
      cases hc
      simp only [after, serve, put, Registry.put, Registry.update_of_not_live _ hs]
    | trap handle index =>
      cases hc
      simp only [after, serve, trap, Registry.trap, Registry.update_of_not_live _ hs]
    | get handle =>
      cases hc
      simp only [after, serve, get, Registry.get, hs]
  | some s =>
    right
    suffices hact : ∃ f, f s = s.act c ∧
        t.after c = { t with registry := t.registry.update h f } by
      obtain ⟨f, hf, hchanged⟩ := hact
      exact ⟨s, f, rfl, hf, hchanged⟩
    cases c with
    | register console tapeSize => cases hc
    | unregister handle => cases hc
    | put handle value =>
      cases hc
      exact ⟨_, rfl, rfl⟩
    | trap handle index =>
      cases hc
      exact ⟨_, rfl, rfl⟩
    | get handle =>
      cases hc
      simp only [after, serve, get, Registry.get, hs, Session.act]
      cases s.console.get with
      | byte b console => exact ⟨fun s => { s with console }, rfl, rfl⟩
      | keep console => exact ⟨fun s => { s with console }, rfl, rfl⟩
      | crash reason console => exact ⟨fun s => { s with console }, rfl, rfl⟩

/-- A host routine acts on the session under its handle. -/
theorem find_host (hc : c.handle? = some h) :
    (t.after c).registry.find? h = (t.registry.find? h).map (·.act c) := by
  rcases host_cases hc with ⟨hn, hsame⟩ | ⟨s, f, hs, hf, hchanged⟩
  · rw [hsame, hn]
    rfl
  · rw [hchanged, Registry.find_update, hs, Option.map_some, hf]
    rfl

theorem find_host_ne (hc : c.handle? = some h) (hg : g ≠ h) :
    (t.after c).registry.find? g = t.registry.find? g := by
  rcases host_cases hc with ⟨-, hsame⟩ | ⟨s, f, -, -, hchanged⟩
  · rw [hsame]
  · rw [hchanged, Registry.find_update_ne f hg]

theorem retired_host (hc : c.handle? = some h) : (t.after c).retired = t.retired := by
  rcases host_cases hc with ⟨-, hsame⟩ | ⟨s, f, -, -, hchanged⟩
  · rw [hsame]
  · rw [hchanged]

theorem last_host (hc : c.handle? = some h) : (t.after c).registry.last = t.registry.last := by
  rcases host_cases hc with ⟨-, hsame⟩ | ⟨s, f, -, -, hchanged⟩
  · rw [hsame]
  · rw [hchanged]
    rfl

/-- A handle that is not live reaches nothing. -/
theorem after_not_live (hc : c.handle? = some h) (hn : t.registry.find? h = none) :
    t.after c = t := by
  rcases host_cases hc with ⟨-, hsame⟩ | ⟨s, f, hs, -, -⟩
  · exact hsame
  · rw [hn] at hs
    cases hs

theorem session_host_ne (hc : c.handle? = some h) (hg : g ≠ h) :
    (t.after c).session? g = t.session? g := by
  unfold session?
  rw [find_host_ne hc hg, retired_host hc]

end Host

/-- The session under a handle is as it would be alone. -/
def Stands (t : SessionTable) (g : UInt64) (x : Solo) : Prop :=
  t.session? g = some x.session ∧ (t.registry.find? g).isSome = x.live

theorem stands_of_find {s : Session} (hs : t.registry.find? g = some s) :
    t.Stands g { session := s } := by
  simp [Stands, session?, hs]

theorem stands_register (t : SessionTable) (console : Console) (tapeSize : Int64) :
    (t.after (.register console tapeSize)).Stands (t.register { console, tapeSize }).1
      { session := { console, tapeSize } } :=
  stands_of_find (Registry.find_register { console, tapeSize })

theorem Stands.find_live {x : Solo} (hx : t.Stands g x) (hlive : x.live = true) :
    t.registry.find? g = some x.session := by
  obtain ⟨hsession, hfind⟩ := hx
  rw [hlive] at hfind
  obtain ⟨s, hs⟩ := Option.isSome_iff_exists.mp hfind
  simp only [session?, hs, Option.some_or] at hsession
  rw [hs, hsession]

theorem Stands.find_not_live {x : Solo} (hx : t.Stands g x) (hlive : x.live = false) :
    t.registry.find? g = none := by
  simpa [hlive] using hx.2

theorem Stands.unregister {x : Solo} (hx : t.Stands g x) (handle : UInt64) :
    (t.unregister handle).Stands g (x.after g (.unregister handle)) := by
  unfold SessionTable.unregister
  by_cases hg : g = handle
  · subst hg
    cases hlive : x.live with
    | true =>
      simp [Stands, session?, Solo.after, hx.find_live hlive, Registry.find_unregister, hlive]
    | false => simpa [Solo.after, hx.find_not_live hlive, hlive] using hx
  · have hsame : x.after g (.unregister handle) = x := by
      obtain ⟨s, live⟩ := x
      cases live <;> simp [Solo.after, Ne.symm hg]
    rw [hsame]
    cases hs : t.registry.find? handle with
    | none => exact hx
    | some s =>
      have hg' : (g == handle) = false := by simpa using hg
      simpa [Stands, session?, Registry.find_unregister, hg, List.lookup_cons, hg'] using hx

theorem Stands.host {x : Solo} (hx : t.Stands g x) (hc : c.handle? = some h) :
    (t.after c).Stands g (if x.live ∧ h = g then { x with session := x.session.act c } else x) := by
  by_cases hg : g = h
  · subst hg
    cases hlive : x.live with
    | true =>
      have hfind := find_host (t := t) hc
      rw [hx.find_live hlive] at hfind
      simpa [hlive] using stands_of_find hfind
    | false =>
      rw [after_not_live hc (hx.find_not_live hlive)]
      simpa using hx
  · simp only [Ne.symm hg, and_false, if_false]
    exact ⟨(session_host_ne hc hg).trans hx.1, by rw [find_host_ne hc hg, hx.2]⟩

/-- Each step keeps it so, unless it gives the handle out anew. -/
theorem Stands.step {x : Solo} (hx : t.Stands g x)
    (hfresh : c.registers = true → g ≠ t.registry.last + 1) :
    (t.after c).Stands g (x.after g c) := by
  cases c with
  | register console tapeSize =>
    have hfind := Registry.find_register_ne { console, tapeSize } (hfresh rfl)
    have hsame : x.after g (.register console tapeSize) = x := by simp [Solo.after]
    rw [hsame]
    simpa [Stands, session?, after, serve, register, hfind] using hx
  | unregister handle => exact hx.unregister handle
  | put handle value =>
    have := hx.host (c := .put handle value) rfl
    cases hlive : x.live <;> simpa [Solo.after, Call.handle?, hlive] using this
  | get handle =>
    have := hx.host (c := .get handle) rfl
    cases hlive : x.live <;> simpa [Solo.after, Call.handle?, hlive] using this
  | trap handle index =>
    have := hx.host (c := .trap handle index) rfl
    cases hlive : x.live <;> simpa [Solo.after, Call.handle?, hlive] using this

/-- The handle given out is the one after the last. -/
theorem issued_cons (t : SessionTable) (c : Call) (rest : List Call) : issued t (c :: rest) =
    if c.registers then (t.registry.last + 1) :: issued (t.after c) rest
    else issued (t.after c) rest := by
  cases c with
  | register | unregister | put | trap | get => rfl

theorem not_mem_issued_cons {rest : List Call} : g ∉ issued t (c :: rest) ↔
    (c.registers = true → g ≠ t.registry.last + 1) ∧ g ∉ issued (t.after c) rest := by
  rw [issued_cons]
  cases hc : c.registers <;> simp

/-- So does a whole history that does not give the handle out anew. -/
theorem Stands.afterAll {x : Solo} {calls : List Call} (hx : t.Stands g x)
    (hfresh : g ∉ issued t calls) :
    (t.afterAll calls).Stands g (calls.foldl (Solo.after g) x) := by
  induction calls generalizing t x with
  | nil => exact hx
  | cons c rest ih =>
    obtain ⟨hhead, hrest⟩ := not_mem_issued_cons.mp hfresh
    exact ih (hx.step hhead) hrest

section Handles

theorem afterAll_append (a b : List Call) : t.afterAll (a ++ b) = (t.afterAll a).afterAll b :=
  List.foldl_append

theorem issued_append (a b : List Call) :
    issued t (a ++ b) = issued t a ++ issued (t.afterAll a) b := by
  induction a generalizing t with
  | nil => rfl
  | cons c rest ih =>
    rw [List.cons_append, issued_cons, issued_cons, ih]
    split <;> rfl

theorem last_after : (t.after c).registry.last =
    if c.registers then t.registry.last + 1 else t.registry.last := by
  cases c with
  | register console tapeSize => rfl
  | unregister handle =>
    simp only [after, serve, unregister]
    cases t.registry.find? handle <;> rfl
  | put handle value => exact last_host rfl
  | get handle => exact last_host rfl
  | trap handle index => exact last_host rfl

/-- Handles are given out in rising order, each once. -/
theorem issued_rising {calls : List Call}
    (hfew : t.registry.last.toNat + registrations calls < UInt64.size) :
    (∀ h ∈ issued t calls, t.registry.last.toNat < h.toNat) ∧ (issued t calls).Nodup := by
  induction calls generalizing t with
  | nil => simp [issued]
  | cons c rest ih =>
    have hlast := last_after (t := t) (c := c)
    rw [issued_cons]
    cases hc : c.registers with
    | true =>
      simp only [registrations, List.countP_cons, hc, if_true] at hfew hlast ⊢
      have hnext : (t.registry.last + 1).toNat = t.registry.last.toNat + 1 := by
        rw [UInt64.toNat_add]
        exact Nat.mod_eq_of_lt (by simp [UInt64.size] at hfew ⊢; omega)
      have hfew' : (t.after c).registry.last.toNat + registrations rest < UInt64.size := by
        rw [hlast, hnext]
        unfold registrations
        omega
      obtain ⟨habove, hnodup⟩ := ih hfew'
      rw [hlast, hnext] at habove
      constructor
      · intro h hm
        rcases List.mem_cons.mp hm with rfl | hm
        · omega
        · have := habove h hm
          omega
      · apply List.nodup_cons.mpr
        refine ⟨?_, hnodup⟩
        intro hm
        have := habove _ hm
        omega
    | false =>
      simp only [registrations, List.countP_cons, hc, Bool.false_eq_true, if_false] at hfew hlast ⊢
      have h := ih (t := t.after c) (by rw [hlast]; exact hfew)
      rw [hlast] at h
      exact h

end Handles

theorem session_after_none (hn : t.session? h = none)
    (hfresh : c.registers = true → h ≠ t.registry.last + 1) : (t.after c).session? h = none := by
  have hhost : ∀ {g}, c.handle? = some g → (t.after c).session? h = none := by
    intro g hc
    by_cases hg : h = g
    · subst hg
      rw [after_not_live hc (Option.or_eq_none_iff.mp hn).1, hn]
    · rw [session_host_ne hc hg, hn]
  cases c with
  | register console tapeSize =>
    have hfind := Registry.find_register_ne { console, tapeSize } (hfresh rfl)
    simpa [session?, after, serve, register, hfind] using hn
  | unregister handle =>
    simp only [after, serve, unregister]
    cases hs : t.registry.find? handle with
    | none => exact hn
    | some s =>
      have hne : h ≠ handle := by
        rintro rfl
        simp [session?, hs] at hn
      have hne' : (h == handle) = false := by simpa using hne
      simpa [session?, Registry.find_unregister, hne, List.lookup_cons, hne'] using hn
  | put handle value => exact hhost rfl
  | get handle => exact hhost rfl
  | trap handle index => exact hhost rfl

/-- A handle that was not given out has no session. -/
theorem session_of_not_issued {calls : List Call} (hn : t.session? h = none)
    (hfresh : h ∉ issued t calls) : (t.afterAll calls).session? h = none := by
  induction calls generalizing t with
  | nil => exact hn
  | cons c rest ih =>
    obtain ⟨hhead, hrest⟩ := not_mem_issued_cons.mp hfresh
    exact ih (session_after_none hn hhead) hrest

/-- A handle that was given out has one. -/
theorem stands_of_issued {calls : List Call} (hnodup : (issued t calls).Nodup)
    (hm : h ∈ issued t calls) : ∃ x, (t.afterAll calls).Stands h x := by
  induction calls generalizing t with
  | nil => cases hm
  | cons c rest ih =>
    rw [issued_cons] at hnodup hm
    cases hc : c.registers with
    | false =>
      simp only [hc, Bool.false_eq_true, if_false] at hnodup hm
      exact ih hnodup hm
    | true =>
      simp only [hc, if_true] at hnodup hm
      rcases List.mem_cons.mp hm with rfl | hm
      · cases c with
        | register console tapeSize =>
          exact ⟨_, (t.stands_register console tapeSize).afterAll (List.nodup_cons.mp hnodup).1⟩
        | unregister handle => cases hc
        | put handle value => cases hc
        | trap handle index => cases hc
        | get handle => cases hc
      · exact ih (List.nodup_cons.mp hnodup).2 hm

/-- Neither a handle never given out nor one taken out since is live. -/
def Stale (calls : List Call) (h : UInt64) : Prop :=
  h ∉ issued {} calls ∨
    ∃ before later, calls = before ++ .unregister h :: later ∧ h ∈ issued {} before

theorem find_stale {calls : List Call} (hnodup : (issued {} calls).Nodup) (hs : Stale calls h) :
    (afterAll {} calls).registry.find? h = none := by
  rcases hs with hnever | ⟨before, later, rfl, hm⟩
  · have hnone := session_of_not_issued rfl hnever
    exact (Option.or_eq_none_iff.mp hnone).1
  · rw [issued_append] at hnodup
    have hparts := List.nodup_append.mp hnodup
    obtain ⟨x, hx⟩ := stands_of_issued hparts.1 hm
    have hlater : h ∉ issued ((afterAll {} before).unregister h) later :=
      fun hm' => hparts.2.2 h hm h hm' rfl
    have hdead : (x.after h (.unregister h)).live = false := by
      obtain ⟨s, live⟩ := x
      cases live <;> simp [Solo.after]
    have hend := (hx.unregister h).afterAll hlater
    rw [Solo.foldl_not_live hdead] at hend
    rw [afterAll_append]
    exact hend.find_not_live hdead

/-- A live session answers with the byte it read, or with bit 31 set if there is none to store, and
does not answer exactly if its stream breaks down. -/
theorem get_live {s : Session} (hs : t.registry.find? h = some s) :
    (∀ reason, (t.serve (.get h)).1 = .error reason ↔
      ∃ console, s.console.get = .crash reason console) ∧
    (∀ value, (t.serve (.get h)).1 = .ok value →
      (value.toNat.testBit 31 = true ↔ ∃ console, s.console.get = .keep console)) ∧
    ∀ b console, s.console.get = .byte b console → (t.serve (.get h)).1 = .ok b.toUInt64 := by
  obtain ⟨r', hget, -⟩ := Registry.get_live hs
  have hanswer : (t.serve (.get h)).1 = answerOf s.console.get := by
    simp only [serve, get, hget]
  rw [hanswer]
  cases s.console.get with
  | crash reason console => simp [answerOf]
  | byte b console =>
    have hbit := testBit_byte b
    rw [UInt8.toNat_toUInt64] at hbit
    simp [answerOf, hbit]
  | keep console => simp [answerOf, testBit_keepValue]

/-- A trap once noted is there whatever comes later. -/
theorem trap_stays {calls more : List Call} (hnodup : (issued {} (calls ++ more)).Nodup)
    {s : Session} (hs : (afterAll {} calls).session? h = some s) {noted : Trap}
    (hnoted : s.trap = some noted) :
    ∃ s', (afterAll {} (calls ++ more)).session? h = some s' ∧ s'.trap = some noted := by
  rw [issued_append] at hnodup
  have hissued : h ∈ issued {} calls := by
    apply Classical.byContradiction
    intro hnever
    rw [session_of_not_issued rfl hnever] at hs
    cases hs
  have hlater : h ∉ issued (afterAll {} calls) more :=
    fun hm => (List.nodup_append.mp hnodup).2.2 h hissued h hm rfl
  have hx : (afterAll {} calls).Stands h
      { session := s, live := ((afterAll {} calls).registry.find? h).isSome } := ⟨hs, rfl⟩
  have hend := hx.afterAll hlater
  rw [afterAll_append]
  refine ⟨_, hend.1, ?_⟩
  cases hlive : ((afterAll {} calls).registry.find? h).isSome with
  | true => rw [Solo.foldl_trap rfl, hnoted, Option.some_or]
  | false => rw [Solo.foldl_not_live rfl, hnoted]

/-- Sessions do not disturb each other, in whatever order the runs of a process take their steps. -/
theorem sessions_isolated (calls : List Call) (hfew : registrations calls < UInt64.size) :
    let t := afterAll {} calls
    -- handles
    (0 ∉ issued {} calls ∧ (issued {} calls).Nodup) ∧
    -- a host routine acts on the session under its handle and on no other
    (∀ c h, c.handle? = some h →
      (∀ s, t.registry.find? h = some s → (t.after c).session? h = some (s.act c)) ∧
      ∀ g, g ≠ h → (t.after c).session? g = t.session? g) ∧
    -- a handle that is not live reaches nothing
    (∀ h, Stale calls h →
      (∀ c, c.handle? = some h → t.after c = t) ∧
      ∃ value, (t.serve (.get h)).1 = .ok value ∧ value.toNat.testBit 31 = true) ∧
    -- the answer of a live session, if its stream does not break down
    (∀ h s, t.registry.find? h = some s →
      (∀ reason, (t.serve (.get h)).1 = .error reason ↔
        ∃ console, s.console.get = .crash reason console) ∧
      (∀ value, (t.serve (.get h)).1 = .ok value →
        (value.toNat.testBit 31 = true ↔ ∃ console, s.console.get = .keep console)) ∧
      ∀ b console, s.console.get = .byte b console → (t.serve (.get h)).1 = .ok b.toUInt64) ∧
    -- each session fares as it would alone, and its trap is the first one reported
    (∀ before console tapeSize later, calls = before ++ .register console tapeSize :: later →
      let h := ((afterAll {} before).register { console, tapeSize }).1
      let alone := later.foldl (Solo.after h) { session := { console, tapeSize } }
      t.session? h = some alone.session ∧ (t.registry.find? h).isSome = alone.live ∧
      alone.session.trap =
        (firstReport h later).map fun index => { address := index.toInt64, tapeSize }) ∧
    -- and stays
    (∀ more h s noted, registrations (calls ++ more) < UInt64.size →
      t.session? h = some s → s.trap = some noted →
      ∃ s', (afterAll {} (calls ++ more)).session? h = some s' ∧ s'.trap = some noted) := by
  intro t
  have hrising : ∀ calls, registrations calls < UInt64.size →
      (∀ h ∈ issued {} calls, 0 < h.toNat) ∧ (issued {} calls).Nodup := by
    intro calls hfew
    apply issued_rising
    rw [show (({} : SessionTable).registry.last.toNat) = 0 from rfl, Nat.zero_add]
    exact hfew
  obtain ⟨hpos, hnodup⟩ := hrising calls hfew
  refine ⟨⟨fun hz => absurd (hpos 0 hz) (by decide), hnodup⟩, ?_, ?_, ?_, ?_, ?_⟩
  · intro c h hc
    constructor
    · intro s hs
      rw [session?, find_host hc, hs]
      rfl
    · intro g hg
      exact session_host_ne hc hg
  · intro h hstale
    have hnone := find_stale hnodup hstale
    constructor
    · intro c hc
      exact after_not_live hc hnone
    · refine ⟨keepValue, ?_, testBit_keepValue⟩
      simp only [serve, get, Registry.get, t, hnone]
  · intro h s hs
    exact get_live hs
  · intro before console tapeSize later hcalls h alone
    subst hcalls
    rw [issued_append] at hnodup
    have hlater := (List.nodup_cons.mp (List.nodup_append.mp hnodup).2.1).1
    have hend := ((afterAll {} before).stands_register console tapeSize).afterAll hlater
    refine ⟨?_, ?_, ?_⟩
    · simp only [t, afterAll_append]
      exact hend.1
    · simp only [t, afterAll_append]
      exact hend.2
    · simp only [alone]
      rw [Solo.foldl_trap rfl, Option.none_or]
  · intro more h s noted hmore hs hnoted
    exact trap_stays (hrising _ hmore).2 hs hnoted

/-- Two runs that take turns. The first traps twice and leaves, and one of its calls comes late. -/
def turns : List Call :=
  [.register {} 8, .register {} 4, .trap 1 0xffffffffffffffff, .put 2 75, .trap 1 9, .unregister 1,
    .trap 1 3, .trap 2 7]

theorem sessions_isolated_turns :
    registrations turns < UInt64.size ∧ Stale turns 1 ∧
    (∃ value, ((afterAll {} turns).serve (.get 1)).1 = .ok value ∧
      value.toNat.testBit 31 = true) ∧
    ∃ s s', (afterAll {} turns).session? 1 = some s ∧
      s.trap = some { address := -1, tapeSize := 8 } ∧
      (afterAll {} turns).session? 2 = some s' ∧ s'.trap = some { address := 7, tapeSize := 4 } ∧
      ((afterAll {} turns).after (.trap 2 5)).session? 1 = some s := by
  have hfew : registrations turns < UInt64.size := by decide
  have hstale : Stale turns 1 :=
    .inr ⟨turns.take 5, turns.drop 6, rfl, by decide +kernel⟩
  obtain ⟨-, hhost, hdead, -, halone, -⟩ := sessions_isolated turns hfew
  obtain ⟨hs, -, htrap⟩ := halone [] {} 8 turns.tail rfl
  obtain ⟨hs', -, htrap'⟩ := halone (turns.take 1) {} 4 (turns.drop 2) rfl
  have hother := (hhost (.trap 2 5) 2 rfl).2 1 (by decide)
  exact ⟨hfew, hstale, (hdead 1 hstale).2, _, _, hs, htrap, hs', htrap', hother.trans hs⟩

end SessionTable

end TapeLang.Native
