import TapeLang.Text

namespace TapeLang

/-- A character of a text read as UTF-8. A byte that starts no valid encoding stands for itself, so
a text of any bytes splits into runes and nothing is lost. -/
inductive Rune where
  | char (c : Char)
  | stray (b : UInt8)
deriving DecidableEq, Repr

namespace Rune

def bytes : Rune → Text
  | char c => String.utf8EncodeChar c
  | stray b => [b]

def char? : Rune → Option Char
  | char c => some c
  | stray _ => none

def isContinuation (b : UInt8) : Bool := 0x80 ≤ b && b ≤ 0xBF

/-- Two bytes that encode a character. -/
def isPair (a b : UInt8) : Bool := 0xC2 ≤ a && a ≤ 0xDF && isContinuation b

/-- The first two of three bytes: no overlong form and no surrogate. -/
def startsTriple (a b : UInt8) : Bool :=
  (a == 0xE0 && 0xA0 ≤ b && b ≤ 0xBF) ||
  (0xE1 ≤ a && a ≤ 0xEF && a != 0xED && isContinuation b) ||
  (a == 0xED && 0x80 ≤ b && b ≤ 0x9F)

/-- The first two of four bytes: no overlong form and nothing above U+10FFFF. -/
def startsQuad (a b : UInt8) : Bool :=
  (a == 0xF0 && 0x90 ≤ b && b ≤ 0xBF) ||
  (0xF1 ≤ a && a ≤ 0xF3 && isContinuation b) ||
  (a == 0xF4 && 0x80 ≤ b && b ≤ 0x8F)

def low (b : UInt8) : Nat := b.toNat % 64

/-- The rune at the front of `a :: rest`, and how many bytes of `rest` belong to it. -/
def first (a : UInt8) (rest : Text) : Rune × Nat :=
  if a < 0x80 then (char (Char.ofNat a.toNat), 0) else
  match rest with
  | b :: c :: d :: _ =>
    if isPair a b then (char (Char.ofNat (a.toNat % 32 * 64 + low b)), 1)
    else if startsTriple a b && isContinuation c then
      (char (Char.ofNat (a.toNat % 16 * 4096 + low b * 64 + low c)), 2)
    else if startsQuad a b && isContinuation c && isContinuation d then
      (char (Char.ofNat (a.toNat % 8 * 262144 + low b * 4096 + low c * 64 + low d)), 3)
    else (stray a, 0)
  | [b, c] =>
    if isPair a b then (char (Char.ofNat (a.toNat % 32 * 64 + low b)), 1)
    else if startsTriple a b && isContinuation c then
      (char (Char.ofNat (a.toNat % 16 * 4096 + low b * 64 + low c)), 2)
    else (stray a, 0)
  | [b] =>
    if isPair a b then (char (Char.ofNat (a.toNat % 32 * 64 + low b)), 1) else (stray a, 0)
  | [] => (stray a, 0)

end Rune

namespace Text

/-- The runes after the first `skip` bytes. -/
def runesAfter : Nat → Text → List Rune
  | _, [] => []
  | skip + 1, _ :: t => runesAfter skip t
  | 0, a :: t =>
    let (r, extra) := Rune.first a t
    r :: runesAfter extra t

def runes (t : Text) : List Rune := runesAfter 0 t

/-- The number of characters, each byte outside a valid encoding counting as one. -/
def runeCount (t : Text) : Nat := t.runes.length

def ofRunes (rs : List Rune) : Text := rs.flatMap Rune.bytes

/-- The string with these bytes, if they are valid UTF-8. -/
def toString? (t : Text) : Option String :=
  (t.runes.mapM Rune.char?).map String.ofList

end Text

end TapeLang
