import TapeLang.Yaml.Token

namespace TapeLang.Yaml.Cursor

/-- Space inside a scalar: the blanks before the first line break, that break, and later ones. -/
structure Space where
  blanks : List Char := []
  first : List Char := []
  later : List Char := []
  /-- A line has ended. -/
  broken : Bool := false

/-- What stands for the space in the value. -/
def Space.folded (s : Space) : List Char :=
  if !s.broken then s.blanks
  else if s.first == ['\n'] then if s.later.isEmpty then [' '] else s.later
  else s.first ++ s.later

def Space.addBreak (s : Space) (b : List Char) : Space :=
  if s.broken then { s with later := s.later ++ b }
  else { s with blanks := [], first := b, broken := true }

def Space.addBlank (s : Space) (c : Char) : Space :=
  if s.broken then s else { s with blanks := s.blanks ++ [c] }

/-- Moves over space. In a plain scalar a tab may not stand for indentation, which has `indent`
columns; a quoted scalar needs none. -/
def takeSpace (start : Mark) (indent : Int) : Nat → Cursor → Space → Except Fault (Space × Cursor)
  | 0, c, s => .ok (s, c)
  | n + 1, c, s => do
    c.need 1
    match c.peek with
    | none => .ok (s, c)
    | some x =>
      if Glance.isBlank (some x) then
        if s.broken && x == '\t' && (c.mark.column : Int) < indent then
          .error (.token .tabInPlain start c.mark)
        else takeSpace start indent n c.skip (s.addBlank x)
      else if Glance.isBreak (some x) then
        c.need 2
        let (b, c) := c.takeBreak
        takeSpace start indent n c (s.addBreak b)
      else .ok (s, c)

/-- These end a plain scalar between brackets. -/
def endsFlowPlain (x : Char) : Bool :=
  x == ',' || x == '?' || x == '[' || x == ']' || x == '{' || x == '}'

/-- The length of a word of a plain scalar: up to space, a colon before a gap, or a bracket. -/
def plainLength (flow : Bool) : List Char → Nat
  | [] => 0
  | x :: rest =>
    if Glance.isGap (some x) || (x == ':' && Glance.isGap rest.head?) ||
        (flow && endsFlowPlain x) then 0
    else plainLength flow rest + 1

/-- A scalar that was read, the last character first, where it stops, and what follows. -/
structure Taken where
  value : List Char
  stop : Mark
  cursor : Cursor
  /-- The scalar ends with a line break. -/
  broken : Bool := false

/-- The words of a plain scalar that stand deeper than the indentation, with the space between. -/
def takePlain (flow : Bool) (start : Mark) (indent : Int) :
    Nat → Taken → Space → Except Fault Taken
  | 0, t, _ => .ok t
  | n + 1, t, space => do
    let c := t.cursor
    c.need 4
    if c.atDocument || c.peek == some '#' then .ok { t with broken := space.broken }
    else
      let length := plainLength flow c.rest
      let word := c.rest.take length
      let c := skipMany length c
      c.need 2
      let t :=
        if length = 0 then { t with cursor := c, broken := space.broken }
        else
          { value := word.reverse ++ space.folded.reverse ++ t.value
            stop := c.mark
            cursor := c }
      if !(c.peek.isBlank || c.peek.isBreak) then .ok t
      else
        let (space, c) ← takeSpace start indent (c.size + 1) c {}
        let t := { t with cursor := c, broken := space.broken }
        if !flow && (c.mark.column : Int) < indent then .ok t
        else takePlain flow start indent n t space

/-- A plain scalar under `indent` columns, and whether a line has ended behind it. -/
def plain (c : Cursor) (flow : Bool) (indent : Int) : Except Fault (Token × Bool × Cursor) := do
  let t ← takePlain flow c.mark (indent + 1) (c.size + 1)
    { value := [], stop := c.mark, cursor := c } {}
  let value := text (String.ofList t.value.reverse)
  .ok (⟨.scalar value .plain, c.mark, t.stop⟩, t.broken, t.cursor)

def singleQuote : Char := Char.ofNat 0x27

def doubleQuote : Char := Char.ofNat 0x22

def backslash : Char := Char.ofNat 0x5C

/-- The characters that a letter stands for after a backslash. -/
def escapes : List (Char × Nat) :=
  [('0', 0x00), ('a', 0x07), ('b', 0x08), ('t', 0x09), ('\t', 0x09), ('n', 0x0A), ('v', 0x0B),
    ('f', 0x0C), ('r', 0x0D), ('e', 0x1B), (' ', 0x20), (doubleQuote, 0x22), (singleQuote, 0x27),
    (backslash, 0x5C), ('N', 0x85), ('_', 0xA0), ('L', 0x2028), ('P', 0x2029)]

/-- The number of digits that follow a letter after a backslash. -/
def escapeDigits : List (Char × Nat) := [('x', 2), ('u', 4), ('U', 8)]

def hexValue? (x : Char) : Option Nat :=
  if x.isDigit then some (x.toNat - 0x30)
  else if 'a' ≤ x && x ≤ 'f' then some (x.toNat - 0x57)
  else if 'A' ≤ x && x ≤ 'F' then some (x.toNat - 0x37)
  else none

/-- The number that hexadecimal digits write, exactly `n` of them. -/
def hexNumber? (n : Nat) (digits : List Char) : Option Nat :=
  if digits.length < n then none
  else (digits.take n).foldl (fun v x => v.bind fun v => (hexValue? x).map (v * 16 + ·)) (some 0)

/-- The character of an escape that starts at the cursor, and what follows it. -/
def takeEscape (start : Mark) (c : Cursor) : Except Fault (Char × Cursor) :=
  match c.peekAt 1 with
  | none => .error (.token .escapeUnknown start c.mark)
  | some x =>
    match escapes.lookup x, escapeDigits.lookup x with
    | some n, _ => .ok (Char.ofNat n, skipMany 2 c)
    | none, some count => do
      let c := skipMany 2 c
      c.need count
      match hexNumber? count c.rest with
      | none => .error (.token .escapeDigit start c.mark)
      | some n =>
        if (0xD800 ≤ n && n ≤ 0xDFFF) || n > 0x10FFFF then
          .error (.token .escapeCode start c.mark)
        else .ok (Char.ofNat n, skipMany count c)
    | none, none => .error (.token .escapeUnknown start c.mark)

/-- The characters up to space or a closing quote, and whether an escaped line break follows. -/
def takeQuotedWord (single : Bool) (start : Mark) :
    Nat → Cursor → List Char → Except Fault (List Char × Bool × Cursor)
  | 0, c, done => .ok (done, false, c)
  | n + 1, c, done => do
    c.need 2
    match c.peek with
    | none => .ok (done, false, c)
    | some x =>
      if Glance.isGap (some x) then .ok (done, false, c)
      else if single then
        if x != singleQuote then takeQuotedWord single start n c.skip (x :: done)
        else if c.peekAt 1 == some singleQuote then
          takeQuotedWord single start n (skipMany 2 c) (x :: done)
        else .ok (done, false, c)
      else if x == doubleQuote then .ok (done, false, c)
      else if x == backslash && (c.peekAt 1).isBreak then do
        c.need 3
        .ok (done, true, c.skip.skipBreak)
      else if x == backslash then
        let (y, c) ← takeEscape start c
        takeQuotedWord single start n c (y :: done)
      else takeQuotedWord single start n c.skip (x :: done)

/-- The words between quotes and the space between them, up to the closing quote. -/
def takeQuoted (single : Bool) (start : Mark) :
    Nat → Cursor → List Char → Except Fault (List Char × Cursor)
  | 0, c, done => .ok (done, c)
  | n + 1, c, done => do
    c.need 4
    if c.atDocument then .error (.token .indicatorInQuotes start c.mark)
    else if c.peek.isNone then .error (.token .streamEnd start c.mark)
    else
      let (done, escaped, c) ← takeQuotedWord single start (c.size + 1) c done
      c.need 1
      if c.peek == some (if single then singleQuote else doubleQuote) then .ok (done, c.skip)
      else
        let (space, c) ← takeSpace start 0 (c.size + 1) c { broken := escaped }
        takeQuoted single start n c (space.folded.reverse ++ done)

def quoted (c : Cursor) (single : Bool) : Except Fault (Token × Cursor) := do
  let (value, after) ← takeQuoted single c.mark (c.size + 1) c.skip []
  let style := if single then Style.singleQuoted else .doubleQuoted
  .ok (⟨.scalar (text (String.ofList value.reverse)) style, c.mark, after.mark⟩, after)

/-- What happens to the line breaks at the end of a block. -/
inductive Chomping where
  | strip
  | clip
  | keep
deriving DecidableEq, Repr

def chomping? (g : Glance) : Option Chomping :=
  if g == some '+' then some .keep else if g == some '-' then some .strip else none

/-- A digit gives the indentation of a block, which is never zero. -/
def takeIncrement (start : Mark) (c : Cursor) : Except Fault (Nat × Cursor) :=
  match c.peek with
  | some x =>
    if !x.isDigit then .ok (0, c)
    else if x == '0' then .error (.token .zeroIndent start c.mark)
    else .ok (x.toNat - 0x30, c.skip)
  | none => .ok (0, c)

/-- The signs behind the mark of a block, in either order. -/
def takeHeader (start : Mark) (c : Cursor) : Except Fault (Chomping × Nat × Cursor) := do
  match chomping? c.peek with
  | some chomping =>
    let (increment, c) ← takeIncrement start c.skip
    .ok (chomping, increment, c)
  | none =>
    let (increment, c) ← takeIncrement start c
    match chomping? c.peek with
    | some chomping => .ok (chomping, increment, c.skip)
    | none => .ok (.clip, increment, c)

/-- The end of the line with the mark of a block. -/
def endHeader (start : Mark) (c : Cursor) : Except Fault Cursor := do
  let c := c.skipBlanks
  let c := if c.peek == some '#' then c.skipToBreak else c
  c.need 2
  if !c.peek.isBreakOrEnd then .error (.token .noCommentOrBreak start c.mark)
  else .ok c.skipBreak

/-- Moves over indentation and empty lines; a block without a given indentation takes the widest
one that it finds. -/
structure Margin where
  indent : Nat
  widest : Nat := 0
  breaks : List Char := []

def takeMargin (start : Mark) : Nat → Cursor → Margin → Except Fault (Margin × Cursor)
  | 0, c, m => .ok (m, c)
  | n + 1, c, m => do
    let inside (c : Cursor) : Bool := m.indent = 0 || c.mark.column < m.indent
    let spaces := (c.rest.takeWhile (· == ' ')).length
    let c := skipMany (if m.indent = 0 then spaces else min spaces (m.indent - c.mark.column)) c
    c.need 2
    let m := { m with widest := max m.widest c.mark.column }
    if inside c && c.peek == some '\t' then .error (.token .tabForIndent start c.mark)
    else if !c.peek.isBreak then .ok (m, c)
    else
      let (b, c) := c.takeBreak
      takeMargin start n c { m with breaks := m.breaks ++ b }

/-- The indentation of a block below one of `outer` columns. -/
def Margin.settled (m : Margin) (outer : Int) : Nat :=
  if m.indent = 0 then max (max m.widest (outer + 1).toNat) 1 else m.indent

/-- A block while its lines are read. -/
structure Lines where
  value : List Char := []
  /-- The break behind the last line, and the empty lines after it. -/
  lineBreak : List Char := []
  breaks : List Char := []
  /-- The last line starts with a blank. -/
  blank : Bool := false

/-- Adds a line; a break between two lines that start with no blank is folded. -/
def Lines.add (l : Lines) (literal : Bool) (line : List Char) : Lines :=
  let blank := Glance.isBlank line.head?
  let gap :=
    if !literal && !l.blank && !blank && l.lineBreak == ['\n'] then
      if l.breaks.isEmpty then [' '] else []
    else l.lineBreak
  { value := line.reverse ++ l.breaks.reverse ++ gap.reverse ++ l.value, blank }

def takeLines (literal : Bool) (start : Mark) (indent : Nat) :
    Nat → Cursor → Lines → Except Fault (Lines × Cursor)
  | 0, c, l => .ok (l, c)
  | n + 1, c, l => do
    c.need 1
    if c.mark.column != indent || c.peek.isNone then .ok (l, c)
    else
      let line := c.rest.takeWhile fun x => !Glance.isBreak (some x)
      let c := skipMany line.length c
      c.need 2
      let (lineBreak, c) := c.takeBreak
      let (m, c) ← takeMargin start (c.size + 1) c { indent }
      takeLines literal start indent n c
        { l.add literal line with lineBreak, breaks := m.breaks }

/-- A block of lines below an indentation of `outer` columns. -/
def block (c : Cursor) (literal : Bool) (outer : Int) : Except Fault (Token × Cursor) := do
  let start := c.mark
  let (chomping, increment, c) ← takeHeader start c.skip
  let c ← endHeader start c
  let given := if increment = 0 then 0 else (max outer 0).toNat + increment
  let (m, c) ← takeMargin start (c.size + 1) c { indent := given }
  let (l, c) ← takeLines literal start (m.settled outer) (c.size + 1) c
    { breaks := m.breaks }
  let tail := match chomping with
    | .strip => []
    | .clip => l.lineBreak
    | .keep => l.lineBreak ++ l.breaks
  let style := if literal then Style.literal else .folded
  .ok (⟨.scalar (text (String.ofList (l.value.reverse ++ tail))) style, start, c.mark⟩, c)

end TapeLang.Yaml.Cursor
