import TapeLang.Yaml.Scalar
import TapeLang.Yaml.Token.Scanner

namespace TapeLang.Yaml

/-- A node with its tag and its line, counted from one. -/
inductive Node where
  | scalar (tag : Text) (line : Nat) (value : Text)
  | sequence (tag : Text) (line : Nat) (items : List Node)
  /-- Keys and values by turns. -/
  | mapping (tag : Text) (line : Nat) (entries : List Node)
  /-- A node from elsewhere; none if it is around the alias. -/
  | reference (line : Nat) (name : Text) (target : Option Node)

namespace Node

def line : Node → Nat
  | scalar _ n _ => n
  | sequence _ n _ => n
  | mapping _ n _ => n
  | reference n _ _ => n

/-- The node that stands where there is nothing. -/
def empty (mark : Mark) : Node := scalar Tag.null (mark.line + 1) []

end Node

/-- The tokens that are still to come, and what the nodes so far have named. -/
structure Reading where
  tokens : List Token
  /-- Why the tokens end, if that is not the end of the document. -/
  fault : Option Fault := none
  /-- The named nodes, the last one first; a node is known when it is complete. -/
  anchors : List (Text × Option Node) := []
  handles : List (Text × Text) := []

namespace Reading

def peek (r : Reading) : Except Fault Token :=
  match r.tokens with
  | t :: _ => .ok t
  | [] => .error (r.fault.getD (.order .noContent {} {}))

def skip (r : Reading) : Reading := { r with tokens := r.tokens.tail }

/-- What stands before the content of a node. -/
structure Properties where
  start : Mark
  anchor : Option Text := none
  /-- The handle and the suffix of the tag, and where it stands. -/
  tag : Option (Text × Text × Mark) := none

/-- An anchor and a tag may stand before a node in either order. -/
def properties (r : Reading) : Except Fault (Properties × Reading) := do
  let t ← r.peek
  match t.kind with
  | .anchor name =>
    let r := r.skip
    let u ← r.peek
    match u.kind with
    | .tag handle suffix =>
      .ok ({ start := t.start, anchor := some name, tag := some (handle, suffix, u.start) }, r.skip)
    | _ => .ok ({ start := t.start, anchor := some name }, r)
  | .tag handle suffix =>
    let r := r.skip
    let u ← r.peek
    match u.kind with
    | .anchor name =>
      .ok ({ start := t.start, anchor := some name, tag := some (handle, suffix, t.start) }, r.skip)
    | _ => .ok ({ start := t.start, tag := some (handle, suffix, t.start) }, r)
  | _ => .ok ({ start := t.start }, r)

/-- The tag in full; it is empty if there is none. -/
def fullTag (r : Reading) (p : Properties) : Except Fault Text :=
  match p.tag with
  | none => .ok []
  | some (handle, suffix, mark) =>
    if handle.isEmpty then .ok suffix
    else
      match r.handles.lookup handle with
      | some stem => .ok (stem ++ suffix)
      | none => .error (.order .tagHandle p.start mark)

/-- The tag of a node; a lone mark says nothing. -/
def tagOr (tag standard : Text) : Text :=
  if tag.isEmpty || tag == text "!" then standard else Tag.short tag

/-- The tag of a scalar that has none. A scalar that is not plain is a text. -/
def plainTag (value : Text) (style : Style) : Text :=
  if style != .plain then Tag.string
  else if value == text "<<" then Tag.merge
  else (Scalar.untagged value true).1

/-- Makes room for a named node that is not complete. -/
def announce (r : Reading) (p : Properties) : Reading :=
  match p.anchor with
  | some name => { r with anchors := (name, none) :: r.anchors }
  | none => r

/-- The named node, announced when there were `count` others, is complete. Names given inside of it
are newer. -/
def complete (r : Reading) (p : Properties) (count : Nat) (n : Node) : Reading :=
  match p.anchor with
  | some name =>
    { r with anchors := r.anchors.set (r.anchors.length - 1 - count) (name, some n) }
  | none => r

def aliasOf (r : Reading) (line : Nat) (name : Text) : Except Fault Node :=
  match r.anchors.lookup name with
  | some target => .ok (.reference line name target)
  | none => .error (.unknownAnchor name)

def isOneOf (t : Token) (kinds : List TokenKind) : Bool := kinds.contains t.kind

mutual

/-- A node. In a `block` it may start with an indicator, and the dashes of a sequence may stand as
far left as the key before it if `loose` holds. -/
def node (block loose : Bool) : Nat → Reading → Except Fault (Node × Reading)
  | 0, _ => .error (.order .noContent {} {})
  | n + 1, r => do
    let t ← r.peek
    match t.kind with
    | .reference name =>
      let r := r.skip
      let a ← r.aliasOf (t.start.line + 1) name
      .ok (a, r)
    | _ =>
      let (p, r) ← r.properties
      let t ← r.peek
      let tag ← r.fullTag p
      let line := p.start.line + 1
      let count := r.anchors.length
      match t.kind with
      | .scalar value style =>
        let s := Node.scalar (tagOr tag (plainTag value style)) line value
        .ok (s, (r.announce p).skip.complete p count s)
      | .flowSequenceStart =>
        let (items, r) ← flowItems t.start true n (r.announce p).skip []
        let s := Node.sequence (tagOr tag Tag.sequence) line items
        .ok (s, r.complete p count s)
      | .flowMappingStart =>
        let (entries, r) ← flowEntries t.start true n (r.announce p).skip []
        let s := Node.mapping (tagOr tag Tag.mapping) line entries
        .ok (s, r.complete p count s)
      | kind =>
        if kind == .blockEntry && loose then
          let (items, r) ← looseItems n (r.announce p) []
          let s := Node.sequence (tagOr tag Tag.sequence) line items
          .ok (s, r.complete p count s)
        else if kind == .blockSequenceStart && block then
          let (items, r) ← blockItems t.start n (r.announce p).skip []
          let s := Node.sequence (tagOr tag Tag.sequence) line items
          .ok (s, r.complete p count s)
        else if kind == .blockMappingStart && block then
          let (entries, r) ← blockEntries t.start n (r.announce p).skip []
          let s := Node.mapping (tagOr tag Tag.mapping) line entries
          .ok (s, r.complete p count s)
        else if p.anchor.isSome || !tag.isEmpty then
          let s := Node.scalar (tagOr tag Tag.null) line []
          .ok (s, (r.announce p).complete p count s)
        else .error (.order .noContent p.start t.start)

/-- The items of a sequence in a block, the last one first. -/
def blockItems (start : Mark) : Nat → Reading → List Node → Except Fault (List Node × Reading)
  | 0, r, done => .ok (done.reverse, r)
  | n + 1, r, done => do
    let t ← r.peek
    match t.kind with
    | .blockEntry =>
      let r := r.skip
      let u ← r.peek
      if isOneOf u [.blockEntry, .blockEnd] then blockItems start n r (Node.empty t.stop :: done)
      else
        let (item, r) ← node true false n r
        blockItems start n r (item :: done)
    | .blockEnd => .ok (done.reverse, r.skip)
    | _ => .error (.order .noDash start t.start)

/-- The items of a sequence that has no block of its own. -/
def looseItems : Nat → Reading → List Node → Except Fault (List Node × Reading)
  | 0, r, done => .ok (done.reverse, r)
  | n + 1, r, done => do
    let t ← r.peek
    match t.kind with
    | .blockEntry =>
      let r := r.skip
      let u ← r.peek
      if isOneOf u [.blockEntry, .key, .value, .blockEnd] then
        looseItems n r (Node.empty t.stop :: done)
      else
        let (item, r) ← node true false n r
        looseItems n r (item :: done)
    | _ => .ok (done.reverse, r)

/-- A key or a value in a block, behind its indicator. -/
def blockPart (mark : Mark) : Nat → Reading → Except Fault (Node × Reading)
  | 0, r => .ok (Node.empty mark, r)
  | n + 1, r => do
    let t ← r.peek
    if isOneOf t [.key, .value, .blockEnd] then .ok (Node.empty mark, r) else node true true n r

/-- The entries of a mapping in a block, the last one first. -/
def blockEntries (start : Mark) : Nat → Reading → List Node → Except Fault (List Node × Reading)
  | 0, r, done => .ok (done.reverse, r)
  | n + 1, r, done => do
    let t ← r.peek
    match t.kind with
    | .key =>
      let (key, r) ← blockPart t.stop n r.skip
      let u ← r.peek
      let (value, r) ←
        if u.kind == .value then blockPart u.stop n r.skip else .ok (Node.empty u.start, r)
      blockEntries start n r (value :: key :: done)
    | .blockEnd => .ok (done.reverse, r.skip)
    | _ => .error (.order .noKey start t.start)

/-- The items between brackets, the last one first. A key makes a mapping of one entry. -/
def flowItems (start : Mark) (first : Bool) :
    Nat → Reading → List Node → Except Fault (List Node × Reading)
  | 0, r, done => .ok (done.reverse, r)
  | n + 1, r, done => do
    let t ← r.peek
    if t.kind == .flowSequenceEnd then .ok (done.reverse, r.skip)
    else if !first && t.kind != .flowEntry then .error (.order .noSequenceEnd start t.start)
    else
      let r := if first then r else r.skip
      let t ← r.peek
      match t.kind with
      | .flowSequenceEnd => .ok (done.reverse, r.skip)
      | .key =>
        let (entries, r) ← flowPair n r.skip
        let pair := Node.mapping Tag.mapping (t.start.line + 1) entries
        flowItems start false n r (pair :: done)
      | _ =>
        let (item, r) ← node false false n r
        flowItems start false n r (item :: done)

/-- The one entry of a mapping without brackets of its own. An empty key takes the token behind it
along. -/
def flowPair : Nat → Reading → Except Fault (List Node × Reading)
  | 0, r => .ok ([], r)
  | n + 1, r => do
    let t ← r.peek
    let (key, r) ←
      if isOneOf t [.value, .flowEntry, .flowSequenceEnd] then .ok (Node.empty t.stop, r.skip)
      else node false false n r
    let (value, r) ← flowValue .flowSequenceEnd n r
    .ok ([key, value], r)

/-- A value between brackets, if there is one. -/
def flowValue (close : TokenKind) : Nat → Reading → Except Fault (Node × Reading)
  | 0, r => .ok (Node.empty {}, r)
  | n + 1, r => do
    let t ← r.peek
    if t.kind != .value then .ok (Node.empty t.start, r)
    else
      let r := r.skip
      let u ← r.peek
      if isOneOf u [.flowEntry, close] then .ok (Node.empty u.start, r) else node false false n r

/-- The entries between braces, the last one first. A node that is no key has no value. -/
def flowEntries (start : Mark) (first : Bool) :
    Nat → Reading → List Node → Except Fault (List Node × Reading)
  | 0, r, done => .ok (done.reverse, r)
  | n + 1, r, done => do
    let t ← r.peek
    if t.kind == .flowMappingEnd then .ok (done.reverse, r.skip)
    else if !first && t.kind != .flowEntry then .error (.order .noMappingEnd start t.start)
    else
      let r := if first then r else r.skip
      let t ← r.peek
      match t.kind with
      | .flowMappingEnd => .ok (done.reverse, r.skip)
      | .key =>
        let r := r.skip
        let u ← r.peek
        let (key, r) ←
          if isOneOf u [.value, .flowEntry, .flowMappingEnd] then .ok (Node.empty u.start, r)
          else node false false n r
        let (value, r) ← flowValue .flowMappingEnd n r
        flowEntries start false n r (value :: key :: done)
      | _ =>
        let (key, r) ← node false false n r
        let u ← r.peek
        flowEntries start false n r (Node.empty u.start :: key :: done)

end

/-- The handles that need no directive. -/
def standardHandles : List (Text × Text) := [(text "!", text "!"), (text "!!", Tag.longStem)]

/-- The directives before a document. -/
def directives (seen : Bool) : Nat → Reading → Except Fault Reading
  | 0, r => .ok r
  | n + 1, r => do
    let t ← r.peek
    match t.kind with
    | .version major minor =>
      if seen then .error (.order .versionTwice {} t.start)
      else if major != 1 || minor != 1 then .error (.order .versionOther {} t.start)
      else directives true n r.skip
    | .tagHandle handle stem =>
      if (r.handles.lookup handle).isSome then .error (.order .tagTwice {} t.start)
      else directives seen n { r.skip with handles := r.handles ++ [(handle, stem)] }
    | _ => .ok { r with handles := r.handles ++ standardHandles }

def startsDirective : TokenKind → Bool
  | .version _ _ => true
  | .tagHandle _ _ => true
  | _ => false

/-- The node of a document that has been announced; it may be empty. -/
def announced (fuel : Nat) (r : Reading) : Except Fault (Node × Reading) := do
  let t ← r.peek
  if startsDirective t.kind || isOneOf t [.documentStart, .documentEnd, .streamEnd] then
    .ok (Node.empty t.start, r)
  else node true false fuel r

/-- The first document, if there is one. What follows it is not looked at. -/
def document (fuel : Nat) (r : Reading) : Except Fault (Option Node) := do
  let _ ← r.peek
  let r := r.skip
  let t ← r.peek
  if t.kind == .streamEnd then .ok none
  else
    let isMarked := startsDirective t.kind || t.kind == .documentStart
    let r ← directives false fuel r
    let (root, r) ←
      if !isMarked then node true false fuel r
      else do
        let t ← r.peek
        if t.kind != .documentStart then .error (.order .noDocumentStart {} t.start)
        else announced fuel r.skip
    let _ ← r.peek
    .ok (some root)

end Reading

/-- The node of the first document in some bytes, if there is one. -/
def Node.ofBytes? (bytes : Text) : Except Fault (Option Node) :=
  let (tokens, fault) := Token.scan (Stream.ofBytes bytes)
  Reading.document (4 * tokens.length + 16) { tokens, fault }

end TapeLang.Yaml
