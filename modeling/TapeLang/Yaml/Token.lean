import TapeLang.Yaml.Stream

namespace TapeLang.Yaml

/-- How a scalar is written. -/
inductive Style where
  | plain
  | singleQuoted
  | doubleQuoted
  | literal
  | folded
deriving DecidableEq, Repr

inductive TokenKind where
  | streamStart
  | streamEnd
  | version (major minor : Nat)
  /-- A handle that stands for the front part of tags. -/
  | tagHandle (handle stem : Text)
  | documentStart
  | documentEnd
  | blockSequenceStart
  | blockMappingStart
  | blockEnd
  | flowSequenceStart
  | flowSequenceEnd
  | flowMappingStart
  | flowMappingEnd
  | blockEntry
  | flowEntry
  | key
  | value
  | reference (name : Text)
  | anchor (name : Text)
  | tag (handle suffix : Text)
  | scalar (value : Text) (style : Style)
deriving DecidableEq, Repr

/-- A token and where it starts and stops. -/
structure Token where
  kind : TokenKind
  start : Mark
  stop : Mark
deriving DecidableEq, Repr

/-- The front of some characters; at their end there is none. -/
abbrev Glance := Option Char

namespace Glance

def isBlank (g : Glance) : Bool := g == some ' ' || g == some '\t'

def isBreak (g : Glance) : Bool :=
  match g with
  | some c => c == '\r' || c == '\n' || c.toNat == 0x85 || c.toNat == 0x2028 || c.toNat == 0x2029
  | none => false

def isBreakOrEnd (g : Glance) : Bool := g.isNone || g.isBreak

def isGap (g : Glance) : Bool := g.isBlank || g.isBreakOrEnd

/-- Letters, digits, the underscore and the dash make up names. -/
def isName (g : Glance) : Bool :=
  match g with
  | some c => c.isAlphanum || c == '_' || c == '-'
  | none => false

def isDigit (g : Glance) : Bool :=
  match g with
  | some c => c.isDigit
  | none => false

end Glance

/-- The characters that are still to come. -/
structure Cursor where
  rest : List Char := []
  mark : Mark := {}
  /-- No visible character has come since the last line break. -/
  fresh : Bool := false
  /-- Why the characters end, if that is not the end of the document. -/
  fault : Option Problem := none
  /-- How many characters the document has; no loop over it goes round more often. -/
  size : Nat := 0
deriving DecidableEq, Repr

namespace Cursor

def peek (c : Cursor) : Glance := c.rest.head?

def peekAt (c : Cursor) (n : Nat) : Glance := c.rest[n]?

/-- The next characters are `s`. -/
def sees (c : Cursor) (s : String) : Bool := s.toList.isPrefixOf c.rest

/-- The next `n` characters can be read, or the document ends before. -/
def need (c : Cursor) (n : Nat) : Except Fault Unit :=
  match c.fault with
  | some p => if (c.rest.drop (n - 1)).isEmpty then .error (.stream p) else .ok ()
  | none => .ok ()

/-- Moves over one character that is no line break. -/
def skip (c : Cursor) : Cursor :=
  { c with
    rest := c.rest.tail
    mark := { c.mark with index := c.mark.index + 1, column := c.mark.column + 1 }
    fresh := c.fresh && c.peek.isBlank }

def skipMany : Nat → Cursor → Cursor
  | 0, c => c
  | n + 1, c => skipMany n c.skip

/-- Moves over characters that are no line breaks as long as `p` holds of the front. -/
def skipWhile (c : Cursor) (p : Glance → Bool) : Cursor :=
  skipMany (c.rest.takeWhile fun x => p (some x)).length c

def skipBlanks (c : Cursor) : Cursor := c.skipWhile Glance.isBlank

def skipToBreak (c : Cursor) : Cursor := c.skipWhile fun g => !g.isBreakOrEnd

/-- Moves over a line break, if there is one, and gives what stands for it in a scalar. -/
def takeBreak (c : Cursor) : List Char × Cursor :=
  match c.rest with
  | '\r' :: '\n' :: rest =>
    (['\n'],
      { c with rest, mark := ⟨c.mark.index + 2, c.mark.line + 1, 0⟩, fresh := true })
  | x :: rest =>
    if Glance.isBreak (some x) then
      (if x.toNat == 0x2028 || x.toNat == 0x2029 then [x] else ['\n'],
        { c with rest, mark := ⟨c.mark.index + 1, c.mark.line + 1, 0⟩, fresh := true })
    else ([], c)
  | [] => ([], c)

def skipBreak (c : Cursor) : Cursor := c.takeBreak.2

/-- Three dashes or three points at the start of a line, alone or before a gap, part documents. -/
def atIndicator (c : Cursor) (s : String) : Bool :=
  c.mark.column == 0 && c.sees s && (c.peekAt 3).isGap

def atDocument (c : Cursor) : Bool := c.atIndicator "---" || c.atIndicator "..."

/-- The letters and digits of a name. -/
def takeName (c : Cursor) : Text × Cursor :=
  let name := c.rest.takeWhile fun x => Glance.isName (some x)
  (text (String.ofList name), skipMany name.length c)

/-- How far a comment may be away from the place where it is looked for. -/
def commentReach : Nat := 512

/-- Moves over blanks and a comment after them, in the line of the last token. -/
def skipLineComment (c : Cursor) : Cursor :=
  if c.fresh then c
  else
    let blanks := (c.rest.takeWhile fun x => Glance.isBlank (some x)).length
    if blanks < commentReach && c.peekAt blanks == some '#' then c.skipToBreak else c

/-- Moves over blanks and line breaks. -/
def skipSpace : Nat → Cursor → Cursor
  | 0, c => c
  | n + 1, c =>
    if c.peek.isBlank then skipSpace n c.skip
    else if c.peek.isBreak then skipSpace n c.skipBreak
    else c

/-- Moves over a comment, and over those that follow it with nothing but space between. -/
def skipComments : Nat → Cursor → Cursor
  | 0, c => c
  | n + 1, c =>
    let c := c.skipToBreak
    let space := c.rest.takeWhile fun x => x == ' ' || x == '\t' || x == '\r' || x == '\n'
    if space.length < commentReach && c.peekAt space.length == some '#' then
      skipComments n (skipSpace space.length c)
    else c

end Cursor

end TapeLang.Yaml
