import TapeLang.Text.Number

namespace TapeLang

/-- A date and a time of day, as a clock `offset` minutes ahead of universal time shows them. -/
structure Moment where
  year : Nat
  month : Nat
  day : Nat
  hour : Nat := 0
  minute : Nat := 0
  second : Nat := 0
  nanosecond : Nat := 0
  offset : Int := 0
deriving DecidableEq, Repr

namespace Moment

def isLeap (year : Nat) : Bool := year % 4 == 0 && (year % 100 != 0 || year % 400 == 0)

def daysIn (year month : Nat) : Nat :=
  if month == 2 then if isLeap year then 29 else 28
  else if [4, 6, 9, 11].contains month then 30
  else 31

def isValid (m : Moment) : Bool :=
  1 ≤ m.month && m.month ≤ 12 && 1 ≤ m.day && m.day ≤ daysIn m.year m.month && m.hour < 24 &&
    m.minute < 60 && m.second < 60

def isDigit (b : UInt8) : Bool := 0x30 ≤ b && b ≤ 0x39

/-- A number of one or two digits, and what follows it. -/
def short? (t : Text) : Option (Nat × Text) :=
  match t with
  | a :: rest =>
    if !isDigit a then none
    else
      match rest with
      | b :: more =>
        if isDigit b then some (Text.digitsValue [a, b], more)
        else some (Text.digitsValue [a], rest)
      | [] => some (Text.digitsValue [a], [])
  | [] => none

/-- What follows a byte. -/
def after? (b : UInt8) (t : Text) : Option Text :=
  match t with
  | a :: rest => if a == b then some rest else none
  | [] => none

/-- A date: a year of four digits, a month and a day. -/
def date? (t : Text) : Option (Moment × Text) := do
  let year := t.take 4
  guard (year.length == 4 && Text.isDigits year)
  let (month, t) ← short? (← after? 0x2D (t.drop 4))
  let (day, t) ← short? (← after? 0x2D t)
  some ({ year := Text.digitsValue year, month, day }, t)

/-- The first nine digits of a part of a second, which follows a point or a comma. -/
def fraction (t : Text) : Nat × Text :=
  match t with
  | mark :: rest =>
    let digits := rest.takeWhile isDigit
    if (mark == 0x2E || mark == 0x2C) && !digits.isEmpty then
      let kept := digits.take 9
      (Text.digitsValue kept * Nat.pow 10 (9 - kept.length), rest.drop digits.length)
    else (0, t)
  | [] => (0, t)

/-- A time of day onto a date. -/
def time? (m : Moment) (t : Text) : Option (Moment × Text) := do
  let (hour, t) ← short? t
  let (minute, t) ← short? (← after? 0x3A t)
  let (second, t) ← short? (← after? 0x3A t)
  let (nanosecond, t) := fraction t
  some ({ m with hour, minute, second, nanosecond }, t)

/-- The minutes that a zone is ahead: `Z`, or a sign, hours and minutes of two digits each. -/
def zone? (t : Text) : Option Int :=
  match t with
  | [0x5A] => some 0
  | [sign, a, b, 0x3A, c, d] =>
    if !(Text.isDigits [a, b] && Text.isDigits [c, d]) then none
    else
      let hours := Text.digitsValue [a, b]
      let minutes := Text.digitsValue [c, d]
      let offset : Int := hours * 60 + minutes
      if hours > 24 || minutes > 60 then none
      else if sign == 0x2B then some offset
      else if sign == 0x2D then some (-offset)
      else none
  | _ => none

/-- A letter between date and time goes with a zone. -/
def zoned? (m : Moment) (t : Text) : Option Moment := do
  let (m, t) ← time? m t
  some { m with offset := ← zone? t }

/-- Blanks between date and time go without a zone. -/
def unzoned? (m : Moment) (t : Text) : Option Moment := do
  let (m, t) ← time? m (t.dropWhile (· == Text.space))
  guard t.isEmpty
  some m

def read? (t : Text) : Option Moment := do
  let (m, t) ← date? t
  let m ← match t with
    | [] => some m
    | b :: rest =>
      if b == 0x54 || b == 0x74 then zoned? m rest
      else if b == Text.space then unzoned? m rest
      else none
  guard m.isValid
  some m

/-- Decimal with zeros in front up to a width. -/
def padded (width n : Nat) : Text :=
  let shown := Text.decimal n
  List.replicate (width - shown.length) 0x30 ++ shown

/-- The part of a second without zeros at the end. -/
def fractionText (nanosecond : Nat) : Text :=
  if nanosecond = 0 then []
  else text "." ++ Text.dropTrailing (· == 0x30) (padded 9 nanosecond)

def offsetText (offset : Int) : Text :=
  (if offset < 0 then text "-" else text "+") ++ padded 2 (offset.natAbs / 60) ++
    padded 2 (offset.natAbs % 60)

/-- A zone without a name goes by its offset. -/
def zoneName (offset : Int) : Text := if offset = 0 then text "UTC" else offsetText offset

def toText (m : Moment) : Text :=
  padded 4 m.year ++ text "-" ++ padded 2 m.month ++ text "-" ++ padded 2 m.day ++ text " " ++
    padded 2 m.hour ++ text ":" ++ padded 2 m.minute ++ text ":" ++ padded 2 m.second ++
    fractionText m.nanosecond ++ text " " ++ offsetText m.offset ++ text " " ++ zoneName m.offset

end Moment

end TapeLang
