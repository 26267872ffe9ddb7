import TapeLang.Yaml.Node

namespace TapeLang.Yaml

namespace Node

/-- The tag of a node; an alias has that of its target. -/
def tag : Node → Text
  | scalar tag _ _ => tag
  | sequence tag _ _ => tag
  | mapping tag _ _ => tag
  | reference _ _ (some target) => target.tag
  | reference _ _ none => Tag.mapping

/-- What tells two keys of one kind apart. -/
def keyText : Node → Nat × Text
  | scalar _ _ value => (0, value)
  | sequence _ _ _ => (1, [])
  | mapping _ _ _ => (2, [])
  | reference _ name _ => (3, name)

def isMapping : Node → Bool
  | mapping _ _ _ => true
  | reference _ _ (some target) => target.isMapping
  | _ => false

/-- The key of an entry that stands for the entries of other mappings. -/
def isMerge : Node → Bool
  | scalar tag _ value => value == text "<<" && tag == Tag.merge
  | _ => false

def keys : List Node → List Node
  | key :: _ :: rest => key :: keys rest
  | _ => []

/-- Some entry merges other mappings. -/
def merges (entries : List Node) : Bool := (keys entries).any isMerge

/-- The keys that stand twice. -/
def repeats : List Node → List Misfit
  | [] => []
  | key :: rest =>
    rest.filterMap (fun other =>
      if other.keyText == key.keyText then some (.repeated other.line key.keyText.2 key.line)
      else none) ++ repeats rest

/-- All keys are texts. -/
def isTextual (entries : List Node) : Bool :=
  (keys entries).all fun key => key.tag == Tag.string || key.tag == Tag.merge

/-- A value as a message shows it: a long one is cut. -/
def cutShort (value : Text) : Text :=
  Fault.backquoted (if value.length > 10 then value.take 7 ++ text "..." else value)

/-- The kind of a node, with the value unless the kind says that it has none. -/
def described (tag value : Text) : Text :=
  if tag == Tag.sequence || tag == Tag.mapping then tag else tag ++ text " " ++ cutShort value

def misfit (wanted : Text) : Node → Misfit
  | scalar tag line value => .kind line (described tag value) wanted
  | sequence tag line _ => .kind line (described tag []) wanted
  | mapping tag line _ => .kind line (described tag []) wanted
  | reference line _ _ => .kind line [] wanted

end Node

/-- How many nodes were looked at, how many of them through aliases, and what did not fit. -/
structure Tally where
  nodes : Nat := 0
  aliased : Nat := 0
  misfits : List Misfit := []

namespace Tally

/-- Small documents may come almost all from aliases, large ones only for a tenth. -/
def isExcessive (t : Tally) : Bool :=
  t.aliased > 100 && t.nodes > 1000 &&
    if t.nodes ≤ 400000 then t.aliased * 100 > t.nodes * 99
    else if t.nodes ≥ 4000000 then t.aliased * 10 > t.nodes
    else t.aliased * 360000000 > t.nodes * (356400000 - 89 * (t.nodes - 400000))

/-- Looks at one more node. -/
def count (t : Tally) (aliased : Bool) : Except Fault Tally :=
  let t := { t with nodes := t.nodes + 1, aliased := t.aliased + if aliased then 1 else 0 }
  if t.isExcessive then .error .aliases else .ok t

def add (t : Tally) (all : List Misfit) : Tally := { t with misfits := t.misfits ++ all }

end Tally

/-- The entries of a table, and the keys that are settled, which merged mappings leave alone. -/
structure Table where
  entries : List (Data × Data) := []
  settled : Option (List Data) := none

namespace Table

def set (t : Table) (key value : Data) : Table :=
  { t with entries := t.entries.filter (fun (k, _) => k != key) ++ [(key, value)] }

def isSettled (t : Table) (key : Data) : Bool := (t.settled.getD []).contains key

def settle (t : Table) (key : Data) : Table :=
  { t with settled := t.settled.map (key :: ·) }

def flat (t : Table) : List Data := t.entries.flatMap fun (k, v) => [k, v]

end Table

def Data.isScalar : Data → Bool
  | .list _ => false
  | .table _ _ => false
  | _ => true

namespace Node

mutual

/-- The data of a node, if all of it fits. -/
def data (aliased : Bool) (t : Tally) : Node → Except Fault (Option Data × Tally)
  | scalar tag _ value => do
    let t ← t.count aliased
    let (_, d) ← Scalar.data tag value
    .ok (some d, t)
  | sequence _ _ items => do
    let t ← t.count aliased
    let (all, t) ← dataAll aliased t items
    .ok (some (.list all), t)
  | mapping _ _ entries => do
    let t ← t.count aliased
    match repeats (keys entries) with
    | [] =>
      let textual := isTextual entries
      let (table, t) ← addEntries textual aliased {} t entries
      let (table, t) ←
        if !merges entries then .ok (table, t)
        else do
          let (own, t) ← keysData aliased t entries
          addMerged textual aliased { table with settled := some own } t entries
      .ok (some (.table textual table.flat), t)
    | found => .ok (none, t.add found)
  | reference _ name target => do
    let t ← t.count aliased
    match target with
    | some n => data true t n
    | none => .error (.cyclicAnchor name)

def dataAll (aliased : Bool) (t : Tally) : List Node → Except Fault (List Data × Tally)
  | [] => .ok ([], t)
  | n :: rest => do
    let (d, t) ← data aliased t n
    let (all, t) ← dataAll aliased t rest
    .ok (d.toList ++ all, t)

/-- The data of the keys of a mapping. -/
def keysData (aliased : Bool) (t : Tally) : List Node → Except Fault (List Data × Tally)
  | key :: _ :: rest => do
    let (d, t) ← data aliased t key
    let (all, t) ← keysData aliased t rest
    .ok (d.toList ++ all, t)
  | _ => .ok ([], t)

/-- The text of a key, if it has one. -/
def keyData (aliased : Bool) (t : Tally) : Node → Except Fault (Option Data × Tally)
  | scalar tag _ value => do
    let t ← t.count aliased
    match ← Scalar.data tag value with
    | (_, .null) => .ok (none, t)
    | (found, d) => .ok (some (if found == Tag.binary then d else .text value), t)
  | sequence tag line _ => do
    let t ← t.count aliased
    .ok (none, t.add [misfit (text "string") (sequence tag line [])])
  | mapping tag line entries => do
    let t ← t.count aliased
    match repeats (keys entries) with
    | [] => .ok (none, t.add [misfit (text "string") (mapping tag line [])])
    | found => .ok (none, t.add found)
  | reference _ name target => do
    let t ← t.count aliased
    match target with
    | some n => keyData true t n
    | none => .error (.cyclicAnchor name)

/-- Adds entries to a table, those that merge others apart. -/
def addEntries (textual aliased : Bool) (table : Table) (t : Tally) :
    List Node → Except Fault (Table × Tally)
  | key :: value :: rest => do
    if key.isMerge then addEntries textual aliased table t rest
    else
      let (k, t) ← if textual then keyData aliased t key else data aliased t key
      match k with
      | none => addEntries textual aliased table t rest
      | some k =>
        if table.isSettled k then addEntries textual aliased table t rest
        else if !k.isScalar then .error (.key k.shown)
        else
          let (v, t) ← data aliased t value
          let table := table.settle k
          addEntries textual aliased (match v with | some v => table.set k v | none => table) t rest
  | _ => .ok (table, t)

/-- Adds what the last of the merging entries brings. -/
def addMerged (textual aliased : Bool) (table : Table) (t : Tally) :
    List Node → Except Fault (Table × Tally)
  | key :: value :: rest => do
    if !key.isMerge || merges rest then addMerged textual aliased table t rest
    else addMapping true textual aliased table t value
  | _ => .ok (table, t)

def addEach (textual aliased : Bool) (table : Table) (t : Tally) :
    List Node → Except Fault (Table × Tally)
  | [] => .ok (table, t)
  | n :: rest => do
    let (table, t) ← addMapping false textual aliased table t n
    addEach textual aliased table t rest

/-- Adds the entries of a mapping, or of those in a sequence if it may be `several`. -/
def addMapping (several textual aliased : Bool) (table : Table) (t : Tally) :
    Node → Except Fault (Table × Tally)
  | mapping _ _ entries => do
    let t ← t.count aliased
    match repeats (keys entries) with
    | [] =>
      let (table, t) ← addEntries textual aliased table t entries
      if !merges entries then .ok (table, t)
      else
        match table.settled with
        | some _ => addMerged textual aliased table t entries
        | none =>
          let (own, t) ← keysData aliased t entries
          addMerged textual aliased { table with settled := some own } t entries
    | found => .ok (table, t.add found)
  | reference _ name target => do
    let t ← t.count aliased
    match target with
    | some n => if n.isMapping then addMapping false textual true table t n else .error .merge
    | none => .error (.cyclicAnchor name)
  | sequence _ _ items =>
    if several then addEach textual aliased table t items else .error .merge
  | scalar _ _ _ => .error .merge

end

/-- The entries of the table that a document holds; a document that is empty holds none. -/
def table (root : Node) : Except Fault (List (Data × Data)) := do
  let wanted := text "map[string]interface \x7b\x7d"
  let t ← ({} : Tally).count false
  let (table, t) ← match root with
    | mapping _ _ _ => addMapping false true false {} t root
    | scalar tag _ value => do
      match ← Scalar.data tag value with
      | (_, .null) => .ok ({}, t)
      | _ => .ok ({}, t.add [root.misfit wanted])
    | _ => .ok ({}, t.add [root.misfit wanted])
  if t.misfits.isEmpty then .ok table.entries else .error (.misfits t.misfits)

end Node

/-- The entries of the table in the first document of some bytes. -/
def readTable (bytes : Text) : Except Fault (List (Data × Data)) :=
  match Node.ofBytes? bytes with
  | .error e => .error e
  | .ok none => .ok []
  | .ok (some root) => root.table

end TapeLang.Yaml
