namespace TapeLang

/-- Program sources, file names and stream contents need not be valid UTF-8, so every text of the
library is the list of its bytes. -/
abbrev Text := List UInt8

/-- The bytes of a string in UTF-8. -/
def text (s : String) : Text := s.toList.flatMap String.utf8EncodeChar

namespace Text

def newline : UInt8 := 0x0A

def space : UInt8 := 0x20

def escape : UInt8 := 0x1B

/-- Copies of `t`, `n` of them, one after the other. -/
def times (n : Nat) (t : Text) : Text := (List.replicate n t).flatten

def blanks (n : Nat) : Text := List.replicate n space

def decimal (n : Nat) : Text := (Nat.toDigits 10 n).map fun c => c.toNat.toUInt8

/-- Decimal with a minus sign below zero. -/
def integer (n : Int) : Text := if n < 0 then text "-" ++ decimal n.natAbs else decimal n.natAbs

/-- Decimal with a sign in front of every number, zero included. -/
def signed (n : Int) : Text := (if n < 0 then text "-" else text "+") ++ decimal n.natAbs

/-- The lower-case hexadecimal digit of the low four bits. -/
def hexDigit (n : Nat) : UInt8 :=
  let d := (n % 16).toUInt8
  if d < 10 then 0x30 + d else 0x57 + d

/-- Exactly `width` lower-case hexadecimal digits of `n`, the highest first. -/
def hex : Nat → Nat → Text
  | 0, _ => []
  | width + 1, n => hex width (n / 16) ++ [hexDigit n]

/-- The number `n` in hexadecimal with no leading zero. -/
def hexShort (n : Nat) : Text := (Nat.toDigits 16 n).map fun c => c.toNat.toUInt8

def join (separator : Text) : List Text → Text
  | [] => []
  | [t] => t
  | t :: rest => t ++ separator ++ join separator rest

/-- What stands before the first `b`, and what follows it if there is one. -/
def cut (b : UInt8) : Text → Text × Option Text
  | [] => ([], none)
  | c :: rest => if c = b then ([], some rest) else
      let (front, back) := cut b rest
      (c :: front, back)

/-- The pieces between the occurrences of `b`: one more than there are occurrences. -/
def split (b : UInt8) : Text → List Text
  | [] => [[]]
  | c :: rest =>
    if c = b then [] :: split b rest else
      match split b rest with
      | [] => [[c]]
      | piece :: pieces => (c :: piece) :: pieces

def dropTrailing (p : UInt8 → Bool) (t : Text) : Text := (t.reverse.dropWhile p).reverse

end Text

end TapeLang
