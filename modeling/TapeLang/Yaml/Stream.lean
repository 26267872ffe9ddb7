import TapeLang.Yaml.Fault

namespace TapeLang.Yaml

/-- Characters, and why there are no more of them if that is not the end. -/
structure Stream where
  chars : List Char := []
  fault : Option Problem := none
deriving DecidableEq, Repr

namespace Stream

/-- What stands at the front of some bytes. -/
inductive Step where
  | char (c : Char) (width : Nat)
  /-- A character that needs more bytes than there are. -/
  | cut (p : Problem)
  | fault (p : Problem)

/-- Characters that may stand in a document. -/
def isAllowed (n : Nat) : Bool :=
  n == 0x09 || n == 0x0A || n == 0x0D || (0x20 ≤ n && n ≤ 0x7E) || n == 0x85 ||
    (0xA0 ≤ n && n ≤ 0xD7FF) || (0xE000 ≤ n && n ≤ 0xFFFD) || (0x10000 ≤ n && n ≤ 0x10FFFF)

def allow (n width : Nat) : Step :=
  if isAllowed n then .char (Char.ofNat n) width else .fault .control

/-- The number of bytes that a first byte announces. -/
def width? (b : UInt8) : Option Nat :=
  if b < 0x80 then some 1
  else if b &&& 0xE0 == 0xC0 then some 2
  else if b &&& 0xF0 == 0xE0 then some 3
  else if b &&& 0xF8 == 0xF0 then some 4
  else none

/-- The bits of a first byte that belong to the character. -/
def leadingBits (b : UInt8) (width : Nat) : Nat :=
  if width = 1 then b.toNat else b.toNat % Nat.pow 2 (7 - width)

/-- The least character with a number of bytes. -/
def leastOf (width : Nat) : Nat :=
  if width = 2 then 0x80 else if width = 3 then 0x800 else if width = 4 then 0x10000 else 0

def octets : Text → Step
  | [] => .cut .incompleteOctets
  | b :: rest =>
    match width? b with
    | none => .fault .leadingOctet
    | some width =>
      let more := rest.take (width - 1)
      if more.length < width - 1 then .cut .incompleteOctets
      else if more.any fun b => b &&& 0xC0 != 0x80 then .fault .trailingOctet
      else
        let n := more.foldl (fun n b => n * 64 + b.toNat % 64) (leadingBits b width)
        if n < leastOf width then .fault .octetCount
        else if (0xD800 ≤ n && n ≤ 0xDFFF) || n > 0x10FFFF then .fault .surrogate
        else allow n width

/-- A unit of two bytes, the higher one first if `big` holds. -/
def unit (big : Bool) (a b : UInt8) : Nat :=
  if big then a.toNat * 256 + b.toNat else b.toNat * 256 + a.toNat

def units (big : Bool) : Text → Step
  | a :: b :: rest =>
    let n := unit big a b
    if n / 0x400 == 0x37 then .fault .strayLowSurrogate
    else if n / 0x400 == 0x36 then
      match rest with
      | c :: d :: _ =>
        let low := unit big c d
        if low / 0x400 != 0x37 then .fault .noLowSurrogate
        else allow (0x10000 + n % 0x400 * 0x400 + low % 0x400) 4
      | _ => .cut .incompletePair
    else allow n 2
  | _ => .cut .incompleteUnit

/-- The characters of a block, the last one first, the bytes that are left over, and why. -/
def block (step : Text → Step) :
    Nat → Text → List Char → Except Problem (List Char × Text × Problem)
  | 0, rest, done => .ok (done, rest, .incompleteOctets)
  | fuel + 1, rest, done =>
    if rest.isEmpty then .ok (done, [], .incompleteOctets)
    else
      match step rest with
      | .char c width => block step fuel (rest.drop width) (c :: done)
      | .cut p => .ok (done, rest, p)
      | .fault p => .error p

def blockSize : Nat := 512

/-- The blocks one by one; what a block leaves over starts the next one. -/
def blocks (step : Text → Step) : Nat → Nat → Text → Stream
  | 0, _, _ => {}
  | fuel + 1, size, bytes =>
    if bytes.isEmpty then {}
    else
      let now := bytes.take size
      let later := bytes.drop size
      match block step size now [] with
      | .error p => { fault := some p }
      | .ok (done, left, p) =>
        if later.isEmpty then
          { chars := done.reverse, fault := if left.isEmpty then none else some p }
        else
          let s := blocks step fuel blockSize (left ++ later)
          { s with chars := done.reverse ++ s.chars }

/-- A byte order mark tells the encoding; without one it is UTF-8. -/
def ofBytes (bytes : Text) : Stream :=
  let fuel := bytes.length + 1
  match bytes with
  | 0xFF :: 0xFE :: rest => blocks (units false) fuel (blockSize - 2) rest
  | 0xFE :: 0xFF :: rest => blocks (units true) fuel (blockSize - 2) rest
  | 0xEF :: 0xBB :: 0xBF :: rest => blocks octets fuel (blockSize - 3) rest
  | _ => blocks octets fuel blockSize bytes

end Stream

end TapeLang.Yaml
