import TapeLang.Text.Number

namespace TapeLang

/-- A binary floating point number of 64 bits. Reading gives the nearest one to a decimal and
writing the shortest decimal that reads back as the same number, by exact arithmetic on natural
numbers. -/
inductive Double where
  /-- The mantissa times two to the power of the exponent; the mantissa has at most 53 bits. -/
  | finite (negative : Bool) (mantissa : Nat) (exponent : Int)
  | infinite (negative : Bool)
  | undefined
deriving DecidableEq, Repr

namespace Double

def leastExponent : Int := -1074

def greatestExponent : Int := 971

def zero (negative : Bool) : Double := finite negative 0 leastExponent

/-- The quotient rounded to a whole number, a half to the even one. -/
def roundDiv (n d : Nat) : Nat :=
  let q := n / d
  let r := n % d
  if 2 * r < d then q
  else if 2 * r > d then q + 1
  else q + q % 2

/-- The numerator and the denominator of `n / d` divided by two to the power `e`. -/
def descale (n d : Nat) (e : Int) : Nat × Nat :=
  if e ≥ 0 then (n, d * Nat.pow 2 e.toNat) else (n * Nat.pow 2 (-e).toNat, d)

/-- The exponent with which `n / d` gets a mantissa of 53 bits, as far as there is one. -/
def exponentFor (n d : Nat) : Int :=
  let e : Int := (Nat.log2 n : Int) - Nat.log2 d - 53
  let (n', d') := descale n d e
  max (if n' / d' ≥ Nat.pow 2 53 then e + 1 else e) leastExponent

/-- The number nearest to `n / d`; none if it is too large. -/
def ofRatio? (negative : Bool) (n d : Nat) : Option Double :=
  if n = 0 then some (zero negative)
  else
    let e := exponentFor n d
    let (n', d') := descale n d e
    let m := roundDiv n' d'
    let (m, e) := if m = Nat.pow 2 53 then (Nat.pow 2 52, e + 1) else (m, e)
    if e > greatestExponent then none else some (finite negative m e)

/-- Beyond this power of ten every number is too large, and below its inverse it is zero. -/
def maxPower : Int := 400

/-- The number nearest to `digits` times ten to the power `power`; none if it is too large. -/
def ofDecimal? (negative : Bool) (digits : Nat) (power : Int) : Option Double :=
  let size : Int := (Nat.toDigits 10 digits).length + power
  if digits = 0 || size < -maxPower then some (zero negative)
  else if size > maxPower then none
  else if power ≥ 0 then ofRatio? negative (digits * Nat.pow 10 power.toNat) 1
  else ofRatio? negative digits (Nat.pow 10 (-power).toNat)

def ofInt (n : Int) : Double :=
  (ofRatio? (n < 0) n.natAbs 1).getD (infinite (n < 0))

/-- Reads the digits of an exponent; from ten thousand on the rest does not matter. -/
def readPower (t : Text) : Nat :=
  t.foldl (fun n b => if n < 10000 then 10 * n + (b.toNat - 0x30) else n) 0

/-- The parts of a decimal: sign, digits before and after the point, and exponent. -/
structure Parts where
  negative : Bool
  whole : Text
  fraction : Text
  power : Int

/-- The exponent after its mark; none if there are no digits. -/
def exponent? (t : Text) : Option Int :=
  let (negative, digits) := Text.splitSign t
  if digits.isDigits then
    some (if negative then -(readPower digits : Int) else readPower digits)
  else none

/-- A decimal has digits before or after its point, and it may have an exponent. -/
def parts? (t : Text) : Option Parts :=
  let (negative, magnitude) := Text.splitSign t
  let front := magnitude.takeWhile fun b => b != 0x65 && b != 0x45
  let power := match magnitude.drop front.length with
    | [] => some 0
    | _ :: rest => exponent? rest
  let (whole, after) := Text.cut 0x2E front
  let fraction := after.getD []
  match power with
  | none => none
  | some power =>
    if (whole ++ fraction).isDigits then some { negative, whole, fraction, power } else none

def Parts.nearest? (p : Parts) : Option Double :=
  ofDecimal? p.negative (p.whole ++ p.fraction).digitsValue (p.power - p.fraction.length)

/-- The number nearest to a decimal; none if the text is none or the number is too large. -/
def read? (t : Text) : Option Double := (parts? t).bind Parts.nearest?

/-- The numbers from `low / unit` to `high / unit` are nearest to `value / unit`, the ends only if
`closed` holds. -/
structure Interval where
  low : Nat
  value : Nat
  high : Nat
  unit : Nat
  closed : Bool

/-- What rounds to a mantissa and an exponent. Below a power of two the numbers are closer. -/
def interval (mantissa : Nat) (exponent : Int) : Interval :=
  let scale := Nat.pow 2 exponent.toNat
  let below := if mantissa = Nat.pow 2 52 && exponent > leastExponent then 1 else 2
  { low := (4 * mantissa - below) * scale
    value := 4 * mantissa * scale
    high := (4 * mantissa + 2) * scale
    unit := 4 * Nat.pow 2 (-exponent).toNat
    closed := mantissa % 2 == 0 }

/-- The interval in multiples of ten to the power `power`. -/
def Interval.over (i : Interval) (power : Int) : Interval :=
  let up := Nat.pow 10 (-power).toNat
  { i with
    low := i.low * up
    value := i.value * up
    high := i.high * up
    unit := i.unit * Nat.pow 10 power.toNat }

def Interval.contains (i : Interval) (n : Nat) : Bool :=
  let x := n * i.unit
  n != 0 && if i.closed then i.low ≤ x && x ≤ i.high else i.low < x && x < i.high

/-- The whole number in the interval that is nearest to the value, if there is one. -/
def Interval.whole? (i : Interval) : Option Nat :=
  let below := i.value / i.unit
  let above := below + 1
  let nearer := i.value - below * i.unit ≤ above * i.unit - i.value
  if i.contains below && (nearer || !i.contains above) then some below
  else if i.contains above then some above
  else none

/-- The power of ten of the coarsest grid that is tried. -/
def firstPower : Int := 310

def grids : Nat := 640

/-- The coarsest grid of decimals with a point in the interval gives the fewest digits. -/
def shortestFrom (i : Interval) : Nat → Int → Nat × Int
  | 0, power => (0, power)
  | n + 1, power =>
    match (i.over power).whole? with
    | some digits => (digits, power)
    | none => shortestFrom i n (power - 1)

/-- The fewest digits that read back, and the power of ten that they are multiplied with. -/
def shortest (mantissa : Nat) (exponent : Int) : Nat × Int :=
  if mantissa = 0 then (0, 0) else shortestFrom (interval mantissa exponent) grids firstPower

/-- Digits times a power of ten, written without an exponent. -/
def positional (digits : Nat) (power : Int) : Text :=
  let shown := Text.decimal digits
  if power ≥ 0 then shown ++ List.replicate power.toNat 0x30
  else
    let places := (-power).toNat
    let padded := List.replicate (places + 1 - shown.length) 0x30 ++ shown
    padded.take (padded.length - places) ++ text "." ++ padded.drop (padded.length - places)

def toText : Double → Text
  | finite negative mantissa exponent =>
    let (digits, power) := shortest mantissa exponent
    (if negative then text "-" else []) ++ positional digits (if digits = 0 then 0 else power)
  | infinite negative => if negative then text "-Inf" else text "+Inf"
  | undefined => text "NaN"

/-- The whole part, if there is one. -/
def truncate? : Double → Option Int
  | finite negative mantissa exponent =>
    let n : Nat := if exponent ≥ 0 then mantissa * Nat.pow 2 exponent.toNat
      else mantissa / Nat.pow 2 (-exponent).toNat
    some (if negative then -(n : Int) else n)
  | _ => none

/-- A number that does not fit counts as the least integer. -/
def toInt64 (x : Double) : Int64 :=
  match x.truncate? with
  | some n => if -(Int.pow 2 63) ≤ n ∧ n < Int.pow 2 63 then Int64.ofInt n else Int64.minValue
  | none => Int64.minValue

def isZero : Double → Bool
  | finite _ mantissa _ => mantissa == 0
  | _ => false

end Double

end TapeLang
