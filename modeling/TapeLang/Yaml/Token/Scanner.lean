import TapeLang.Yaml.Token.Tag

namespace TapeLang.Yaml

/-- A token that a colon may still turn into a key. -/
structure KeyCandidate where
  possible : Bool := false
  /-- Nothing but a key can stand here. -/
  required : Bool := false
  /-- The number of the token in the document. -/
  number : Nat := 0
  mark : Mark := {}
deriving DecidableEq, Repr

/-- Indentation is told by tokens of its own, and a scalar turns out to be a key only when the colon
behind it is found, so tokens wait in a queue until they are certain. -/
structure Scanner where
  cursor : Cursor := {}
  started : Bool := false
  /-- The tokens that wait, and how many have left. -/
  queue : List Token := []
  released : Nat := 0
  /-- The column of the innermost block, and those around it. -/
  indent : Int := -1
  indents : List Int := []
  /-- How many brackets are open. -/
  flow : Nat := 0
  keyAllowed : Bool := true
  /-- A candidate for every open bracket, the innermost first, and one for the blocks. -/
  candidates : List KeyCandidate := [{}]
  /-- The tokens that have been candidates, with the depth of their brackets. -/
  known : List (Nat × Nat) := []

namespace Scanner

def mark (s : Scanner) : Mark := s.cursor.mark

def nextNumber (s : Scanner) : Nat := s.released + s.queue.length

def push (s : Scanner) (t : Token) : Scanner := { s with queue := s.queue ++ [t] }

/-- Puts a token in front of the one with a number. -/
def insert (s : Scanner) (number : Nat) (t : Token) : Scanner :=
  { s with queue := s.queue.insertIdx (number - s.released) t }

def tokenFault (p : Problem) (context : Mark) (s : Scanner) : Fault := .token p context s.mark

/-- A key stands on one line and has at most 1024 characters. -/
def isStale (s : Scanner) (k : KeyCandidate) : Bool :=
  k.mark.line < s.mark.line || k.mark.index + 1024 < s.mark.index

/-- The candidate can still be a key. -/
def isLive (s : Scanner) (k : KeyCandidate) : Except Fault Bool :=
  if !k.possible then .ok false
  else if s.isStale k then
    if k.required then .error (s.tokenFault .noColon k.mark) else .ok false
  else .ok true

def candidate (s : Scanner) : KeyCandidate := s.candidates.headD {}

def setCandidate (s : Scanner) (k : KeyCandidate) : Scanner :=
  { s with candidates := k :: s.candidates.tail }

def forget (s : Scanner) (number : Nat) : Scanner :=
  { s with known := s.known.filter fun (n, _) => n != number }

/-- Gives the innermost candidate up. -/
def dropCandidate (s : Scanner) : Except Fault Scanner :=
  let k := s.candidate
  if !k.possible then .ok s
  else if k.required then .error (s.tokenFault .noColon k.mark)
  else .ok ((s.setCandidate { k with possible := false }).forget k.number)

/-- The next token is a candidate if keys are allowed here. -/
def saveCandidate (s : Scanner) : Except Fault Scanner :=
  if !s.keyAllowed then .ok s
  else do
    let k : KeyCandidate :=
      { possible := true
        required := s.flow == 0 && s.indent == s.mark.column
        number := s.nextNumber
        mark := s.mark }
    let s ← s.dropCandidate
    .ok { s.setCandidate k with known := (k.number, s.candidates.length - 1) :: s.known }

def maxDepth : Nat := 10000

/-- Starts a block at a column if it is deeper than the current one. -/
def openBlock (s : Scanner) (column : Nat) (kind : TokenKind) (mark : Mark) (number : Option Nat) :
    Except Fault Scanner :=
  if s.flow > 0 || s.indent ≥ column then .ok s
  else
    let s := { s with indents := s.indent :: s.indents, indent := column }
    if s.indents.length > maxDepth then .error (s.tokenFault .depth s.candidate.mark)
    else
      let t : Token := ⟨kind, mark, mark⟩
      .ok (match number with | some n => s.insert n t | none => s.push t)

/-- Ends the blocks that are deeper than a column. -/
def closeBlocks (column : Int) (mark : Mark) : Nat → Scanner → Scanner
  | 0, s => s
  | n + 1, s =>
    if s.indent > column then
      let s := s.push ⟨.blockEnd, mark, mark⟩
      closeBlocks column mark n
        { s with indent := s.indents.headD (-1), indents := s.indents.tail }
    else s

def unroll (s : Scanner) (column : Int) (mark : Mark) : Scanner :=
  if s.flow > 0 then s else closeBlocks column mark (s.indents.length + 1) s

/-- Takes a token of `length` characters. -/
def take (s : Scanner) (kind : TokenKind) (length : Nat) : Scanner :=
  let start := s.mark
  let s := { s with cursor := Cursor.skipMany length s.cursor }
  s.push ⟨kind, start, s.mark⟩

/-- Takes a token that was read from the cursor. -/
def took (s : Scanner) (r : Token × Cursor) : Scanner := { s with cursor := r.2 }.push r.1

/-- Tabs may part tokens, but they may not stand where a block could start. -/
def skipBlanks (s : Scanner) : Scanner :=
  let tabs := s.flow > 0 || !s.keyAllowed
  { s with cursor := s.cursor.skipWhile fun g => g == some ' ' || (tabs && g == some '\t') }

/-- A byte order mark may start a document. -/
def skipOrderMark (s : Scanner) : Scanner :=
  if s.mark.index == 0 && s.cursor.peek == some (Char.ofNat 0xFEFF) then
    { s with cursor := s.cursor.skip }
  else s

/-- Moves to the next token. In a block a new line may start with a key. -/
def skipToToken : Nat → Scanner → Except Fault Scanner
  | 0, s => .ok s
  | n + 1, s => do
    s.cursor.need 1
    let s := s.skipOrderMark.skipBlanks
    s.cursor.need 1
    let s :=
      if s.cursor.peek == some '#' then
        { s with cursor := Cursor.skipComments (s.cursor.size + 1) s.cursor }
      else s
    if s.cursor.peek.isBreak then
      s.cursor.need 2
      skipToToken n
        { s with cursor := s.cursor.skipBreak, keyAllowed := s.keyAllowed || s.flow == 0 }
    else .ok s

def takeStreamEnd (s : Scanner) : Except Fault Scanner := do
  let mark := s.mark
  let mark := if mark.column = 0 then mark else { mark with line := mark.line + 1, column := 0 }
  let s := { s with cursor := { s.cursor with mark } }.unroll (-1) mark
  let s ← s.dropCandidate
  .ok ({ s with keyAllowed := false }.push ⟨.streamEnd, mark, mark⟩)

/-- What stands between documents ends all blocks. -/
def leaveBlocks (s : Scanner) : Except Fault Scanner := do
  let s ← (s.unroll (-1) s.mark).dropCandidate
  .ok { s with keyAllowed := false }

def takeDirective (s : Scanner) : Except Fault Scanner := do
  let s ← s.leaveBlocks
  .ok (s.took (← s.cursor.directive))

def takeIndicator (s : Scanner) (kind : TokenKind) : Except Fault Scanner := do
  let s ← s.leaveBlocks
  .ok (s.take kind 3)

def openBracket (s : Scanner) (kind : TokenKind) : Except Fault Scanner := do
  let s ← s.saveCandidate
  let k : KeyCandidate := { number := s.nextNumber, mark := s.mark }
  let s := { s with candidates := k :: s.candidates, flow := s.flow + 1 }
  if s.flow > maxDepth then .error (s.tokenFault .depth k.mark)
  else .ok ({ s with keyAllowed := true }.take kind 1)

def closeBracket (s : Scanner) (kind : TokenKind) : Except Fault Scanner := do
  let s ← s.dropCandidate
  let s :=
    if s.flow = 0 then s
    else
      let s := s.forget s.candidate.number
      { s with flow := s.flow - 1, candidates := s.candidates.tail }
  .ok ({ s with keyAllowed := false }.take kind 1)

def takeComma (s : Scanner) : Except Fault Scanner := do
  let s ← s.dropCandidate
  .ok ({ s with keyAllowed := true }.take .flowEntry 1)

/-- A dash starts a sequence or goes on with it; between brackets it is out of place, which shows
later. -/
def takeDash (s : Scanner) : Except Fault Scanner := do
  let s ←
    if s.flow > 0 then .ok s
    else if !s.keyAllowed then .error (s.tokenFault .entryNotAllowed s.mark)
    else s.openBlock s.mark.column .blockSequenceStart s.mark none
  let s ← s.dropCandidate
  .ok ({ s with keyAllowed := true }.take .blockEntry 1)

def takeKey (s : Scanner) : Except Fault Scanner := do
  let s ←
    if s.flow > 0 then .ok s
    else if !s.keyAllowed then .error (s.tokenFault .keyNotAllowed s.mark)
    else s.openBlock s.mark.column .blockMappingStart s.mark none
  let s ← s.dropCandidate
  .ok ({ s with keyAllowed := s.flow == 0 }.take .key 1)

/-- A colon makes a key of the candidate. -/
def turnIntoKey (s : Scanner) (k : KeyCandidate) : Except Fault Scanner := do
  let s := s.insert k.number ⟨.key, k.mark, k.mark⟩
  let s ← s.openBlock k.mark.column .blockMappingStart k.mark (some k.number)
  .ok { (s.setCandidate { k with possible := false }).forget k.number with keyAllowed := false }

/-- A colon without a candidate belongs to a key that was marked, or to an empty one. -/
def startValue (s : Scanner) : Except Fault Scanner := do
  let s := s.setCandidate { s.candidate with possible := false }
  let s ←
    if s.flow > 0 then .ok s
    else if !s.keyAllowed then .error (s.tokenFault .valueNotAllowed s.mark)
    else s.openBlock s.mark.column .blockMappingStart s.mark none
  .ok { s with keyAllowed := s.flow == 0 }

def takeColon (s : Scanner) : Except Fault Scanner := do
  let s ← if ← s.isLive s.candidate then s.turnIntoKey s.candidate else s.startValue
  .ok (s.take .value 1)

/-- A token that may be a key, after which none can start at once. -/
def takeNode (s : Scanner) (read : Cursor → Except Fault (Token × Cursor)) :
    Except Fault Scanner := do
  let s ← s.saveCandidate
  .ok ({ s with keyAllowed := false }.took (← read s.cursor))

def takePlain (s : Scanner) : Except Fault Scanner := do
  let s ← s.saveCandidate
  let (t, broken, cursor) ← s.cursor.plain (s.flow > 0) s.indent
  .ok ({ s with cursor, keyAllowed := broken }.push t)

def takeBlock (s : Scanner) (literal : Bool) : Except Fault Scanner := do
  let s ← s.dropCandidate
  .ok ({ s with keyAllowed := true }.took (← s.cursor.block literal s.indent))

/-- No plain scalar starts with one of these. -/
def indicators : List Char :=
  ['-', '?', ':', ',', '[', ']', '{', '}', '#', '&', '*', '!', '|', '>', Cursor.singleQuote,
    Cursor.doubleQuote, '%', '@', Char.ofNat 0x60]

/-- A dash, a question mark and a colon may start a plain scalar where they are no indicators. -/
def startsPlain (s : Scanner) : Bool :=
  match s.cursor.peek with
  | none => false
  | some x =>
    !(Glance.isGap (some x) || indicators.contains x) ||
    (x == '-' && !(s.cursor.peekAt 1).isBlank) ||
    (s.flow == 0 && (x == '?' || x == ':') && !(s.cursor.peekAt 1).isGap)

/-- The token at the cursor, where no document starts or ends. -/
def takeToken (s : Scanner) : Except Fault Scanner :=
  let gap := (s.cursor.peekAt 1).isGap
  match s.cursor.peek with
  | none => .error (s.tokenFault .noToken s.mark)
  | some x =>
    if x == '[' then s.openBracket .flowSequenceStart
    else if x == '{' then s.openBracket .flowMappingStart
    else if x == ']' then s.closeBracket .flowSequenceEnd
    else if x == '}' then s.closeBracket .flowMappingEnd
    else if x == ',' then s.takeComma
    else if x == '-' && gap then s.takeDash
    else if x == '?' && (s.flow > 0 || gap) then s.takeKey
    else if x == ':' && (s.flow > 0 || gap) then s.takeColon
    else if x == '*' then s.takeNode (·.anchor true)
    else if x == '&' then s.takeNode (·.anchor false)
    else if x == '!' then s.takeNode (·.tag)
    else if x == '|' && s.flow == 0 then s.takeBlock true
    else if x == '>' && s.flow == 0 then s.takeBlock false
    else if x == Cursor.singleQuote then s.takeNode (·.quoted true)
    else if x == Cursor.doubleQuote then s.takeNode (·.quoted false)
    else if s.startsPlain then s.takePlain
    else .error (s.tokenFault .noToken s.mark)

/-- A comment may follow in the same line, but not behind a dash. -/
def skipLineComment (s : Scanner) : Scanner :=
  match s.queue.getLast? with
  | some ⟨.blockEntry, _, _⟩ => s
  | _ => { s with cursor := s.cursor.skipLineComment }

/-- Reads one more token. -/
def fetch (s : Scanner) : Except Fault Scanner := do
  s.cursor.need 1
  if !s.started then .ok ({ s with started := true }.push ⟨.streamStart, s.mark, s.mark⟩)
  else
    let before := s.mark
    let s ← skipToToken (s.cursor.size + 1) s
    let s := s.unroll s.mark.column before
    s.cursor.need 4
    if s.cursor.peek.isNone then s.takeStreamEnd
    else if s.mark.column == 0 && s.cursor.peek == some '%' then s.takeDirective
    else if s.cursor.atIndicator "---" then s.takeIndicator .documentStart
    else if s.cursor.atIndicator "..." then s.takeIndicator .documentEnd
    else do
      let s ← s.takeToken
      .ok s.skipLineComment

/-- The token in front may have to wait: two more must follow it, and it must be certain whether it
is a key. -/
def isWaiting (s : Scanner) : Except Fault (Bool × Scanner) :=
  if s.queue.length ≤ 2 then .ok (true, s)
  else
    match s.known.lookup s.released with
    | none => .ok (false, s)
    | some depth =>
      let i := s.candidates.length - 1 - depth
      match if depth < s.candidates.length then s.candidates[i]? else none with
      | none => .ok (false, s)
      | some k =>
        match s.isLive k with
        | .error e => .error e
        | .ok true => .ok (true, s)
        | .ok false =>
          .ok (false, { s with candidates := s.candidates.set i { k with possible := false } })

/-- Reads tokens until the one in front need not wait. -/
def fill : Nat → Scanner → Except Fault Scanner
  | 0, s => .ok s
  | n + 1, s => do
    let (waiting, s) ← s.isWaiting
    if waiting then fill n (← s.fetch) else .ok s

/-- The tokens of a document, the last one first, and what stops them before the end. -/
def run : Nat → Scanner → List Token → List Token × Option Fault
  | 0, _, done => (done, none)
  | n + 1, s, done =>
    match fill (s.cursor.size + 8) s with
    | .error e => (done, some e)
    | .ok s =>
      match s.queue with
      | [] => (done, none)
      | t :: rest =>
        if t.kind == .streamEnd then (t :: done, none)
        else
          let s := s.forget s.released
          run n { s with queue := rest, released := s.released + 1 } (t :: done)

end Scanner

/-- The tokens of a document, and what stops them before the end. -/
def Token.scan (s : Stream) : List Token × Option Fault :=
  let cursor : Cursor := { rest := s.chars, fault := s.fault, size := s.chars.length }
  let (tokens, fault) := Scanner.run (4 * cursor.size + 64) { cursor } []
  (tokens.reverse, fault)

end TapeLang.Yaml
