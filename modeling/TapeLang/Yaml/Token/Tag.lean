import TapeLang.Yaml.Token.Scalar

namespace TapeLang.Yaml.Cursor

/-- These may follow the name of an anchor without a gap. -/
def endsName (g : Glance) : Bool :=
  g.isGap || [some '?', some ':', some ',', some ']', some '}', some '%', some '@',
    some (Char.ofNat 0x60)].contains g

/-- An anchor, or an alias that refers to one. -/
def anchor (c : Cursor) (isAlias : Bool) : Except Fault (Token × Cursor) :=
  let (name, after) := c.skip.takeName
  if name.isEmpty || !endsName after.peek then
    .error (.token .anchorName c.mark after.mark)
  else .ok (⟨if isAlias then .reference name else .anchor name, c.mark, after.mark⟩, after)

/-- An exclamation mark, a name, and a second mark if there is one. -/
def takeHandle (c : Cursor) (directive : Bool) (start : Mark) : Except Fault (Text × Cursor) :=
  if c.peek != some '!' then .error (.token .tagMark start c.mark)
  else
    let (name, c) := c.skip.takeName
    let handle := text "!" ++ name
    if c.peek == some '!' then .ok (handle ++ text "!", c.skip)
    else if directive && !name.isEmpty then .error (.token .tagMark start c.mark)
    else .ok (handle, c)

/-- The signs of a tag beside names. -/
def uriSigns : List Char := ";/?:@&=+$,.!~*'()[]%".toList

/-- A percent sign and two digits for every octet of one character. -/
def takeOctets (start : Mark) : Nat → Cursor → Option Nat → Text → Except Fault (Text × Cursor)
  | 0, c, _, done => .ok (done, c)
  | n + 1, c, more, done =>
    if more == some 0 then .ok (done, c)
    else do
      c.need 3
      match c.peek, hexNumber? 2 (c.rest.drop 1) with
      | some '%', some octet =>
        let b := octet.toUInt8
        let next := skipMany 3 c
        match more with
        | some k =>
          if b &&& 0xC0 != 0x80 then .error (.token .uriTrailingOctet start c.mark)
          else takeOctets start n next (some (k - 1)) (done ++ [b])
        | none =>
          match Stream.width? b with
          | none => .error (.token .uriLeadingOctet start c.mark)
          | some width => takeOctets start n next (some (width - 1)) (done ++ [b])
      | _, _ => .error (.token .uriOctet start c.mark)

def takeUri (start : Mark) : Nat → Cursor → Text → Except Fault (Text × Cursor)
  | 0, c, done => .ok (done, c)
  | n + 1, c, done => do
    c.need 1
    match c.peek with
    | none => .ok (done, c)
    | some x =>
      if x == '%' then
        let (done, c) ← takeOctets start 5 c none done
        takeUri start n c done
      else if Glance.isName (some x) || uriSigns.contains x then
        takeUri start n c.skip (done ++ String.utf8EncodeChar x)
      else .ok (done, c)

/-- The rest of a tag whose front part is read; it may not be empty if there is no front part. -/
def uri (c : Cursor) (front : Text) (start : Mark) : Except Fault (Text × Cursor) := do
  let (t, after) ← takeUri start (c.size + 1) c (front.drop 1)
  if front.isEmpty && after.mark == c.mark then .error (.token .tagUri start c.mark)
  else .ok (t, after)

/-- The handle and the suffix of a tag. A lone mark is a suffix. -/
def takeTag (c : Cursor) : Except Fault (Text × Text × Cursor) := do
  if c.peekAt 1 == some '<' then
    let (suffix, after) ← uri (skipMany 2 c) [] c.mark
    if after.peek != some '>' then .error (.token .tagClosing c.mark after.mark)
    else .ok ([], suffix, after.skip)
  else
    let (handle, after) ← takeHandle c false c.mark
    if handle.length > 1 && handle.getLast? == some 0x21 then
      let (suffix, after) ← uri after [] c.mark
      .ok (handle, suffix, after)
    else
      let (suffix, after) ← uri after handle c.mark
      if suffix.isEmpty then .ok ([], text "!", after) else .ok (text "!", suffix, after)

def tag (c : Cursor) : Except Fault (Token × Cursor) := do
  c.need 2
  let (handle, suffix, after) ← takeTag c
  if !after.peek.isGap then .error (.token .noBlankOrBreak c.mark after.mark)
  else .ok (⟨.tag handle suffix, c.mark, after.mark⟩, after)

/-- A number of a version, of one or two digits. -/
def takeVersionNumber (start : Mark) (c : Cursor) : Except Fault (Nat × Cursor) :=
  let digits := c.rest.takeWhile Char.isDigit
  if digits.length > 2 then .error (.token .versionLength start (skipMany 2 c).mark)
  else if digits.isEmpty then .error (.token .versionNumber start c.mark)
  else .ok ((text (String.ofList digits)).foldl (fun n b => 10 * n + (b.toNat - 0x30)) 0,
    skipMany digits.length c)

def takeVersion (start : Mark) (c : Cursor) : Except Fault (TokenKind × Cursor) := do
  let (major, c) ← takeVersionNumber start c.skipBlanks
  if c.peek != some '.' then .error (.token .versionPoint start c.mark)
  else
    let (minor, c) ← takeVersionNumber start c.skip
    .ok (.version major minor, c)

def takeTagHandle (start : Mark) (c : Cursor) : Except Fault (TokenKind × Cursor) := do
  let (handle, c) ← takeHandle c.skipBlanks true start
  if !c.peek.isBlank then .error (.token .noBlank start c.mark)
  else
    let (stem, c) ← uri c.skipBlanks [] start
    if !c.peek.isGap then .error (.token .noBlankOrBreak start c.mark)
    else .ok (.tagHandle handle stem, c)

/-- A directive fills its line. -/
def directive (c : Cursor) : Except Fault (Token × Cursor) := do
  let start := c.mark
  let (name, c) := c.skip.takeName
  c.need 1
  if name.isEmpty then .error (.token .directiveName start c.mark)
  else if !c.peek.isGap then .error (.token .directiveLetter start c.mark)
  else
    let (kind, c) ←
      if name == text "YAML" then takeVersion start c
      else if name == text "TAG" then takeTagHandle start c
      else .error (.token .directiveUnknown start c.mark)
    let stop := c.mark
    let c ← endHeader start c
    .ok (⟨kind, start, stop⟩, c)

end TapeLang.Yaml.Cursor
