import TapeLang.Text.Rune

namespace TapeLang.Text

/-- The short escapes that both dialects share. -/
def jsonShort? (n : Nat) : Option String :=
  if n = 0x22 then some "\\\""
  else if n = 0x5C then some "\\\\"
  else if n = 0x08 then some "\\b"
  else if n = 0x0C then some "\\f"
  else if n = 0x0A then some "\\n"
  else if n = 0x0D then some "\\r"
  else if n = 0x09 then some "\\t"
  else none

def jsonEscape (n : Nat) : Text := text "\\u" ++ hex 4 n

/-- A rune with the characters that `special` names escaped; a stray byte becomes the escape of
the replacement character. -/
def jsonRune (special : Nat → Bool) : Rune → Text
  | .stray _ => jsonEscape 0xFFFD
  | .char c =>
    match jsonShort? c.toNat with
    | some short => text short
    | none =>
      if c.toNat < 0x20 || special c.toNat then jsonEscape c.toNat
      else String.utf8EncodeChar c

def jsonQuote (special : Nat → Bool) (t : Text) : Text :=
  text "\"" ++ t.runes.flatMap (jsonRune special) ++ text "\""

/-- The form used in log lines. -/
def logQuote (t : Text) : Text := jsonQuote (fun n => n == 0x7F) t

def isLineSeparator (n : Nat) : Bool := n == 0x2028 || n == 0x2029

def isMarkup (n : Nat) : Bool := n == 0x3C || n == 0x3E || n == 0x26

/-- The form used in documents. -/
def documentQuote (markup : Bool) (t : Text) : Text :=
  jsonQuote (fun n => isLineSeparator n || (markup && isMarkup n)) t

end TapeLang.Text
