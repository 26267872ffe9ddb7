import TapeLang.Failure

namespace TapeLang.Native

/-- A region is never writable and executable at once: it starts writable, is sealed into an
executable one, and either kind is released for good. -/
inductive Protection where
  | released
  | readWrite
  | readExec
deriving DecidableEq, Repr

namespace Protection

def name : Protection → Text
  | released => text "released"
  | readWrite => text "rw-"
  | readExec => text "r-x"

/-- The name of the protection with a number, known or not. -/
def nameOfNumber (n : Int) : Text :=
  if n = 0 then name released
  else if n = 1 then name readWrite
  else if n = 2 then name readExec
  else text "Protection(" ++ Text.integer n ++ text ")"

end Protection

/-- Why an operation on a region is refused. -/
inductive Refusal where
  | isSealed
  | isReleased
  | noSpace
deriving DecidableEq, Repr

def Refusal.message : Refusal → Text
  | isSealed => text "execmem: region is sealed"
  | isReleased => text "execmem: region is released"
  | noSpace => text "execmem: code does not fit in region"

def Refusal.toFailure (r : Refusal) : Failure := .plain r.message

/-- What the host lets a process do with mapped memory. -/
structure Access where
  read : Bool := false
  write : Bool := false
  execute : Bool := false
deriving DecidableEq, Repr

/-- The memory of a host and how it hands it out. -/
structure HostMemory where
  /-- A page has two to this power bytes. -/
  pageBits : Nat := 12
  pageBits_lt : pageBits < 63 := by decide
  /-- Where a mapping of a positive length is put, or why there is none. -/
  place : Int64 → Except Text UInt64

namespace HostMemory

def pageSize (h : HostMemory) : Nat := 1 <<< h.pageBits

/-- A host with pages of 4096 bytes: nobody gets more memory of it than there is. -/
def standard : HostMemory where
  place length :=
    if length > Int64.pow 2 35 then .error (text "cannot allocate memory") else .ok 0x10000

end HostMemory

/-- A mapping that is filled with code from its start. -/
structure Region where
  /-- Where the mapping begins. -/
  base : UInt64
  /-- The bytes mapped, none once released. -/
  size : Nat
  memory : Nat → UInt8 := fun _ => 0
  access : Access := { read := true, write := true }
  used : Nat := 0
  protection : Protection := .readWrite
  /-- How often the mapping was handed back to the host. -/
  unmaps : Nat := 0

namespace Region

/-- The smallest number of whole pages, at least one, that hold `size` bytes. It wraps. -/
def roundUp (size page : Int64) : Int64 :=
  if size = 0 then page else (size + page - 1) &&& ~~~(page - 1)

/-- The host's answer to a request for memory of a length, which it fills with zeros. -/
def map (host : HostMemory) (length : Int64) : Except Failure Region :=
  if length ≤ 0 then .error (.environment (text "mmap") (some (.plain (text "invalid argument"))))
  else
    match host.place length with
    | .error reason => .error (.environment (text "mmap") (some (.plain reason)))
    | .ok base => .ok { base, size := length.toNatClampNeg }

def allocate (size : Int64) (host : HostMemory := .standard) : Except Failure Region :=
  if size < 0 then
    .error (.plain (text "execmem: negative size " ++ Text.integer size.toInt))
  else map host (roundUp size (.ofNat host.pageSize))

/-- What the mapping holds while it exists. -/
def content (r : Region) : Text := (List.range r.size).map r.memory

/-- Memory with bytes stored from an index on. -/
def overlay (memory : Nat → UInt8) (index : Nat) (bytes : Text) (i : Nat) : UInt8 :=
  if i < index then memory i else bytes.getD (i - index) (memory i)

/-- The region with more code behind what it holds. -/
def append (r : Region) (code : Text) : Region :=
  { r with memory := overlay r.memory r.used code, used := r.used + code.length }

/-- The host takes away the right to write and gives that to execute. -/
def protectExec (r : Region) : Region :=
  { r with access := { read := true, execute := true }, protection := .readExec }

/-- The host takes the mapping back. -/
def unmap (r : Region) : Region :=
  { r with size := 0, access := {}, protection := .released, unmaps := r.unmaps + 1 }

/-- Appends code to a writable region. -/
def write (r : Region) (code : Text) : Except Refusal Region :=
  match r.protection with
  | .released => .error .isReleased
  | .readExec => .error .isSealed
  | .readWrite =>
    if code.length > r.size - r.used then .error .noSpace else .ok (r.append code)

/-- Makes a writable region executable. -/
def makeExecutable (r : Region) : Except Refusal Region :=
  match r.protection with
  | .released => .error .isReleased
  | .readExec => .error .isSealed
  | .readWrite => .ok r.protectExec

/-- The address of the first instruction. -/
def address (r : Region) : Except Refusal UInt64 :=
  if r.protection = .released then .error .isReleased else .ok r.base

/-- Hands the mapping back, once. -/
def release (r : Region) : Region := if r.protection = .released then r else r.unmap

/-- A sealed region that holds the code and nothing else. -/
def load (code : Text) : Except Failure Region :=
  match allocate (Int64.ofNat code.length) with
  | .error f => .error f
  | .ok r =>
    match r.write code with
    | .error e => .error e.toFailure
    | .ok r =>
      match r.makeExecutable with
      | .error e => .error e.toFailure
      | .ok r => .ok r

end Region

end TapeLang.Native
