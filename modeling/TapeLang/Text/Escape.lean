import TapeLang.Text
import TapeLang.Text.Rune

namespace TapeLang.Text

def isParameter (b : UInt8) : Bool := (0x30 ≤ b && b ≤ 0x39) || b == 0x3B

/-- The length of what follows ESC in a colour sequence, if the text continues one. -/
def sequenceTail? : Text → Option Nat
  | [] => none
  | b :: t =>
    if b == 0x5B then
      let parameters := (t.takeWhile isParameter).length
      if t[parameters]? == some 0x6D then some (parameters + 2) else none
    else none

/-- What is left after the first `skip` bytes once every colour sequence is removed. -/
def stripAfter : Nat → Text → Text
  | _, [] => []
  | skip + 1, _ :: t => stripAfter skip t
  | 0, b :: t =>
    if b == escape then
      match sequenceTail? t with
      | some n => stripAfter n t
      | none => b :: stripAfter 0 t
    else b :: stripAfter 0 t

/-- Removes every colour sequence. -/
def strip (t : Text) : Text := stripAfter 0 t

/-- The number of characters that a terminal shows. -/
def visibleWidth (t : Text) : Nat := t.strip.runeCount

/-- ESC, `[`, the parameters and `m`. -/
def sequence (parameters : Text) : Text := escape :: text "[" ++ parameters ++ text "m"

inductive Attribute where
  | bold
  | red
  | green
  | yellow
  | blue
  | magenta
  | cyan
  | brightBlack
  | brightRed
  | brightBlue
deriving DecidableEq, Repr

/-- How a text looks on a terminal. -/
abbrev Style := List Attribute

/-- A way to paint texts, with colour off and with colour on. -/
structure Painter where
  paint : Bool → Style → Text → Text

namespace Attribute

def code : Attribute → Text
  | bold => text "1"
  | red => text "31"
  | green => text "32"
  | yellow => text "33"
  | blue => text "34"
  | magenta => text "35"
  | cyan => text "36"
  | brightBlack => text "90"
  | brightRed => text "91"
  | brightBlue => text "94"

/-- The code that ends the attribute: bold has its own. -/
def reset : Attribute → Text
  | bold => text "22"
  | _ => text "0"

end Attribute

namespace Painter

/-- Puts the codes of the style before a text and their resets after it. -/
def ansi : Painter where
  paint
    | false, _, t => t
    | true, s, t =>
      sequence (join (text ";") (s.map Attribute.code)) ++ t ++
        sequence (join (text ";") (s.map Attribute.reset))

end Painter

end TapeLang.Text
