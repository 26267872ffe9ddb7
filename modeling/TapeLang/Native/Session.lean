import TapeLang.Run

namespace TapeLang.Native

/-- The host's state for one run. The console is the session's own: no other run holds it. -/
structure Session where
  console : Console
  tapeSize : Int64
  trap : Option Trap := none

namespace Session

/-- The outcome of a run, given what flushing its output came to. -/
def finish (s : Session) (flushed : Option Failure) : Option Failure :=
  match s.trap with
  | none => flushed
  | some t => Failure.andThen (some (.trap t)) flushed

def flush (s : Session) : Session := { s with console := s.console.flush }

/-- The first trap is kept. -/
def noteTrap (s : Session) (address : Int64) : Session :=
  if s.trap.isNone then { s with trap := some { address, tapeSize := s.tapeSize } } else s

end Session

/-- The value that leaves the cell unchanged; code tests its bit 31. -/
def keepValue : UInt64 := ~~~0

/-- The live sessions and the handle given out last. Machine code holds only a handle, and an
unknown one touches nothing. -/
structure Registry where
  sessions : List (UInt64 × Session) := []
  last : UInt64 := 0

namespace Registry

def register (r : Registry) (s : Session) : UInt64 × Registry :=
  let handle := r.last + 1
  (handle, { sessions := (handle, s) :: r.sessions, last := handle })

def unregister (r : Registry) (handle : UInt64) : Registry :=
  { r with sessions := r.sessions.filter fun (h, _) => h != handle }

def find? (r : Registry) (handle : UInt64) : Option Session := r.sessions.lookup handle

/-- Changes the session under a handle. -/
def update (r : Registry) (handle : UInt64) (f : Session → Session) : Registry :=
  { r with sessions := r.sessions.map fun (h, s) => (h, if h == handle then f s else s) }

/-- The put routine: the low byte goes to the console. -/
def put (r : Registry) (handle value : UInt64) : Registry :=
  r.update handle fun s => { s with console := s.console.put value.toUInt8 }

/-- The get routine: a byte of the console, or the value that leaves the cell unchanged. It does not
return if the stream breaks down, and the answer is then the reason. -/
def get (r : Registry) (handle : UInt64) : Except Text UInt64 × Registry :=
  match r.find? handle with
  | none => (.ok keepValue, r)
  | some s =>
    match s.console.get with
    | .byte b console => (.ok b.toUInt64, r.update handle fun s => { s with console })
    | .keep console => (.ok keepValue, r.update handle fun s => { s with console })
    | .crash reason console => (.error reason, r.update handle fun s => { s with console })

/-- The trap routine: the index is read as a signed number. -/
def trap (r : Registry) (handle index : UInt64) : Registry :=
  r.update handle fun s => s.noteTrap index.toInt64

end Registry

/-- All sessions of a process: the live ones, and in what state the others were taken out. -/
structure SessionTable where
  registry : Registry := {}
  retired : List (UInt64 × Session) := []

namespace SessionTable

def register (t : SessionTable) (s : Session) : UInt64 × SessionTable :=
  let (handle, registry) := t.registry.register s
  (handle, { t with registry })

def unregister (t : SessionTable) (handle : UInt64) : SessionTable :=
  match t.registry.find? handle with
  | none => t
  | some s =>
    { registry := t.registry.unregister handle, retired := (handle, s) :: t.retired }

def put (t : SessionTable) (handle value : UInt64) : SessionTable :=
  { t with registry := t.registry.put handle value }

def get (t : SessionTable) (handle : UInt64) : Except Text UInt64 × SessionTable :=
  let (answer, registry) := t.registry.get handle
  (answer, { t with registry })

def trap (t : SessionTable) (handle index : UInt64) : SessionTable :=
  { t with registry := t.registry.trap handle index }

/-- The session that a handle was given out for, live or not. -/
def session? (t : SessionTable) (handle : UInt64) : Option Session :=
  (t.registry.find? handle).or (t.retired.lookup handle)

/-- Writes a session's output, which its owner may do after taking it out as well. -/
def flush (t : SessionTable) (handle : UInt64) : SessionTable :=
  { registry := t.registry.update handle Session.flush
    retired := t.retired.map fun (h, s) => (h, if h == handle then s.flush else s) }

end SessionTable

end TapeLang.Native
