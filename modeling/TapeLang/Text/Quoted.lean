import TapeLang.Text.Printable

namespace TapeLang.Text

/-- The letter after the backslash for the controls that have one. -/
def controlLetter? (n : Nat) : Option String :=
  if n = 0x07 then some "a"
  else if n = 0x08 then some "b"
  else if n = 0x0C then some "f"
  else if n = 0x0A then some "n"
  else if n = 0x0D then some "r"
  else if n = 0x09 then some "t"
  else if n = 0x0B then some "v"
  else none

def quoteChar (c : Char) : Text :=
  if c.toNat = 0x22 || c.toNat = 0x5C then text "\\" ++ String.utf8EncodeChar c
  else if Rune.isPrintable c then String.utf8EncodeChar c
  else match controlLetter? c.toNat with
    | some letter => text "\\" ++ text letter
    | none =>
      if c.toNat < 0x20 || c.toNat = 0x7F then text "\\x" ++ hex 2 c.toNat
      else if c.toNat < 0x10000 then text "\\u" ++ hex 4 c.toNat
      else text "\\U" ++ hex 8 c.toNat

def quoteRune : Rune → Text
  | .char c => quoteChar c
  | .stray b => text "\\x" ++ hex 2 b.toNat

/-- The text between double quotes. Quotes, backslashes and everything that is not printable are
written as escapes. -/
def quote (t : Text) : Text := text "\"" ++ t.runes.flatMap quoteRune ++ text "\""

end TapeLang.Text
