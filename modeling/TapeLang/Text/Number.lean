import TapeLang.Text.Letter
import TapeLang.Text.Quoted

namespace TapeLang.Text

inductive NumberFault where
  | malformed
  | outOfRange
deriving DecidableEq, Repr

def underscore : UInt8 := 0x5F

/-- Decimal digits, one at least. -/
def isDigits (t : Text) : Bool := !t.isEmpty && t.all fun b => 0x30 ≤ b && b ≤ 0x39

/-- The number that decimal digits write. -/
def digitsValue (t : Text) : Nat := t.foldl (fun n b => 10 * n + (b.toNat - 0x30)) 0

/-- The value of a digit or letter. -/
def digitValue? (b : UInt8) : Option Nat :=
  let b := lowerByte b
  if 0x30 ≤ b && b ≤ 0x39 then some (b.toNat - 0x30)
  else if 0x61 ≤ b && b ≤ 0x7A then some (b.toNat - 0x57)
  else none

/-- Reads digits onto `n`, passing over underscores, and stops at the first fault. -/
def readDigits (base : Nat) (n : Nat) : Text → Except NumberFault Nat
  | [] => .ok n
  | b :: rest =>
    if b == underscore then readDigits base n rest
    else
      match digitValue? b with
      | none => .error .malformed
      | some d =>
        if d ≥ base then .error .malformed
        else if n * base + d ≥ Nat.pow 2 64 then .error .outOfRange
        else readDigits base (n * base + d) rest

/-- The base that a letter after a zero marks. -/
def markedBase? (b : UInt8) : Option Nat :=
  let b := lowerByte b
  if b == 0x62 then some 2 else if b == 0x6F then some 8 else if b == 0x78 then some 16 else none

/-- The base of a number and the digits after its mark. -/
def splitBase (t : Text) : Nat × Text :=
  match t with
  | zero :: rest =>
    if zero == 0x30 then
      match rest with
      | mark :: digit :: more =>
        match markedBase? mark with
        | some base => (base, digit :: more)
        | none => (8, rest)
      | _ => (8, rest)
    else (10, t)
  | [] => (10, t)

/-- What stands before a position, for the placing of underscores. -/
inductive Before where
  | start
  | digit
  | underscore
  | other
deriving DecidableEq, Repr

/-- Every underscore stands between two digits. -/
def partedFrom (hexadecimal : Bool) (before : Before) : Text → Bool
  | [] => before != .underscore
  | b :: rest =>
    let isDigit := (0x30 ≤ b && b ≤ 0x39) ||
      (hexadecimal && 0x61 ≤ lowerByte b && lowerByte b ≤ 0x66)
    if isDigit then partedFrom hexadecimal .digit rest
    else if b == underscore then before == .digit && partedFrom hexadecimal .underscore rest
    else before != .underscore && partedFrom hexadecimal .other rest

/-- The mark of a base counts as a digit. -/
def wellParted (t : Text) : Bool :=
  match t with
  | zero :: mark :: rest =>
    match (if zero == 0x30 then markedBase? mark else none) with
    | some base => partedFrom (base == 16) .digit rest
    | none => partedFrom false .start t
  | _ => partedFrom false .start t

def readMagnitude (t : Text) : Except NumberFault Nat :=
  if t.isEmpty then .error .malformed else
  let (base, digits) := splitBase t
  match readDigits base 0 digits with
  | .error e => .error e
  | .ok n => if t.contains underscore && !wellParted t then .error .malformed else .ok n

/-- Whether a minus sign stands in front, and what follows the sign. -/
def splitSign (t : Text) : Bool × Text :=
  match t with
  | b :: rest => if b == 0x2D then (true, rest) else if b == 0x2B then (false, rest) else (false, t)
  | [] => (false, t)

/-- A signed integer of 64 bits. -/
def readInteger (t : Text) : Except NumberFault Int :=
  let (negative, magnitude) := splitSign t
  match readMagnitude magnitude with
  | .error e => .error e
  | .ok n =>
    if negative then if n > Nat.pow 2 63 then .error .outOfRange else .ok (-(n : Int))
    else if n ≥ Nat.pow 2 63 then .error .outOfRange
    else .ok n

/-- Why a text is no number; `reader` names what tried to read it. -/
def numberMessage (reader : String) (t : Text) (f : NumberFault) : Text :=
  text "strconv." ++ text reader ++ text ": parsing " ++ t.quote ++
    match f with
    | .malformed => text ": invalid syntax"
    | .outOfRange => text ": value out of range"

def truths : List Text := ["1", "t", "T", "TRUE", "true", "True"].map text

def falsehoods : List Text := ["0", "f", "F", "FALSE", "false", "False"].map text

def readBool? (t : Text) : Option Bool :=
  if truths.contains t then some true else if falsehoods.contains t then some false else none

/-- What stands before a point that only zeros and points follow, one zero at least, in a text
given from its end. -/
def beforeZeros? (zero : Bool) : Text → Option Text
  | [] => none
  | b :: rest =>
    if b == 0x2E then if zero then some rest else beforeZeros? zero rest
    else if b == 0x30 then beforeZeros? true rest
    else none

/-- A whole number written with a fraction of zeros loses the fraction. -/
def dropZeroFraction (t : Text) : Text :=
  match beforeZeros? false t.reverse with
  | some front => front.reverse
  | none => t

end TapeLang.Text
