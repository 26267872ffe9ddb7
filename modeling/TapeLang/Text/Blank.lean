import TapeLang.Text.Rune

namespace TapeLang.Rune

def isBlankChar (c : Char) : Bool :=
  let n := c.toNat
  (0x09 ≤ n && n ≤ 0x0D) || n == 0x20 || n == 0x85 || n == 0xA0 || n == 0x1680 ||
    (0x2000 ≤ n && n ≤ 0x200A) || n == 0x2028 || n == 0x2029 || n == 0x202F || n == 0x205F ||
    n == 0x3000

def isBlank : Rune → Bool
  | char c => isBlankChar c
  | stray _ => false

end TapeLang.Rune

namespace TapeLang.Text

/-- The text without the white space at its ends. -/
def trim (t : Text) : Text :=
  ofRunes (((t.runes.dropWhile Rune.isBlank).reverse.dropWhile Rune.isBlank).reverse)

/-- The words between runs of white space; `word` holds the current one, its last rune first. -/
def wordsFrom (word : List Rune) : List Rune → List Text
  | [] => if word.isEmpty then [] else [ofRunes word.reverse]
  | r :: rest =>
    if r.isBlank then
      if word.isEmpty then wordsFrom [] rest else ofRunes word.reverse :: wordsFrom [] rest
    else wordsFrom (r :: word) rest

def words (t : Text) : List Text := wordsFrom [] t.runes

end TapeLang.Text
