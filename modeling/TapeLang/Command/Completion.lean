import TapeLang.Command.Flag

namespace TapeLang.Command

/-- What the shell does when there is no suggestion. -/
inductive Directive where
  | suggestFiles
  | suggestNothing
deriving DecidableEq, Repr

namespace Directive

def number : Directive → Nat
  | suggestFiles => 0
  | suggestNothing => 4

def name : Directive → Text
  | suggestFiles => text "ShellCompDirectiveDefault"
  | suggestNothing => text "ShellCompDirectiveNoFileComp"

end Directive

/-- A suggestion and what is said about it. -/
structure Suggestion where
  word : Text
  about : Text := []
deriving DecidableEq, Repr

/-- Suggestions for a command line that is still being typed. -/
structure Completion where
  suggestions : List Suggestion := []
  directive : Directive := .suggestFiles
deriving DecidableEq, Repr

namespace Completion

/-- The values of a flag that has a fixed set of them. -/
def valuesOf? (f : Flag) : Option (List Text) :=
  if f.name == text "dump" then some (["ir", "asm"].map text)
  else if f.name == text "eof" then some (["zero", "unchanged", "max"].map text)
  else none

/-- A flag by its letter or its name, as far as one of them is written. -/
def flagCalled? (name : Text) : Option Flag :=
  match name with
  | [b] => Flag.lettered? b
  | _ => Flag.named? name

/-- The flag in an argument without a value: the name after two dashes or the last letter. -/
def calledIn? (argument : Text) : Option Text :=
  match argument with
  | 0x2D :: 0x2D :: b :: name => if (b :: name).contains 0x3D then none else some (b :: name)
  | 0x2D :: b :: more =>
    if b == 0x2D || (b :: more).contains 0x3D then none
    else (b :: more).getLast?.map fun b => [b]
  | _ => none

/-- What is being typed. -/
inductive Typing where
  /-- A value of a flag, after the arguments. -/
  | value (f : Flag) (before : List Text)
  | word (before : List Text)
  /-- A value of a flag that does not exist. -/
  | unknown (before : List Text)

/-- A value may follow the flag that stands last. -/
def afterFlag (before : List Text) : Typing :=
  match before.getLast?.bind calledIn? with
  | none => .word before
  | some name =>
    match flagCalled? name with
    | none => .unknown before
    | some f => if f.type == .boolean then .word before else .value f before.dropLast

def typing (before : List Text) (last : Text) : Typing :=
  if last.head? == some 0x2D then
    match Text.cut 0x3D last with
    | (_, none) => .word before
    | (front, some _) =>
      let name :=
        if (text "--").isPrefixOf front then front.drop 2 else front.drop (front.length - 1)
      if name.isEmpty then afterFlag before
      else
        match flagCalled? name with
        | some f => .value f before
        | none => .unknown before
  else afterFlag before

def suggestFlag (a : Arguments) (start : Text) (f : Flag) : List Suggestion :=
  if (a.value? f.name).isSome && f.type != .list then []
  else
    (if start.isPrefixOf (text "--" ++ f.name) then [⟨text "--" ++ f.name, f.usage⟩] else []) ++
    match f.letter with
    | some b => if start.isPrefixOf (text "-" ++ [b]) then [⟨text "-" ++ [b], f.usage⟩] else []
    | none => []

/-- The user asks for help or the version, so nothing else matters. -/
def asksOnly (a : Arguments) : Bool :=
  (a.value? (text "help")).isSome || (a.value? (text "version")).isSome

def suggest (a : Arguments) (f : Option Flag) (last : Text) : Completion :=
  if asksOnly a then { directive := .suggestNothing }
  else
    match if a.ended then none else f with
    | some f =>
      match valuesOf? f with
      | some values => { suggestions := values.map (⟨·, []⟩), directive := .suggestNothing }
      | none => {}
    | none =>
      if f.isNone && last.head? == some 0x2D && !last.contains 0x3D && !a.ended then
        { suggestions := Flag.all.flatMap (suggestFlag a last), directive := .suggestNothing }
      else {}

/-- The suggestions for the last argument. -/
def of (arguments : List Text) : Completion :=
  let last := (arguments.getLast?).getD []
  match typing arguments.dropLast last with
  | .value f before =>
    match Arguments.read before with
    | .ok a => suggest a (some f) last
    | .error _ => {}
  | .word before =>
    match Arguments.read before with
    | .ok a => suggest a none last
    | .error _ => {}
  | .unknown before =>
    match Arguments.read before with
    | .ok a => if a.ended then suggest a none last else {}
    | .error _ => {}

/-- What is printed: a line a suggestion, and the directive. -/
def lines (c : Completion) (describe : Bool) : List Text :=
  c.suggestions.map (fun s =>
    s.word ++ (if describe && !s.about.isEmpty then text "\t" ++ s.about else []) ++ text "\n") ++
  [text ":" ++ Text.decimal c.directive.number ++ text "\n"]

def closing (c : Completion) : Text :=
  text "Completion ended with directive: " ++ c.directive.name ++ text "\n"

end Completion

end TapeLang.Command
