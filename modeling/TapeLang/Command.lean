import TapeLang.Block.Listing
import TapeLang.Command.Completion
import TapeLang.Command.Help
import TapeLang.Command.Settings
import TapeLang.Compiled
import TapeLang.Failure.Report
import TapeLang.Native.Listing

namespace TapeLang.Command

/-- The streams of a command while it works. -/
structure Streams where
  output : Sink
  errors : Sink

/-- What a command leaves behind. -/
structure Outcome where
  status : Nat
  output : Sink
  errors : Sink

namespace Streams

/-- One write to the output; its fault is the failure of the command. -/
def print (s : Streams) (t : Text) : Streams × Option Failure :=
  let (output, grant) := s.output.writeText t
  ({ s with output }, grant.fault.map Fault.toFailure)

def printError (s : Streams) (t : Text) : Streams × Option Failure :=
  let (errors, grant) := s.errors.writeText t
  ({ s with errors }, grant.fault.map Fault.toFailure)

/-- Writes lines to the output whatever comes of it. -/
def printLines (s : Streams) (lines : List Text) : Streams :=
  lines.foldl (fun s t => (s.print t).1) s

/-- Writes the events that the threshold lets through; nobody looks at a fault of the log. -/
def log (s : Streams) (clock : Text) (t : Log.Threshold) (events : List Log.Event) : Streams :=
  (events.filter t.allows).foldl (fun s e => (s.printError (e.toLine clock)).1) s

/-- The end of a command, with a report of its failure. -/
def finish (s : Streams) (painter : Text.Painter) (color : Bool) (failure : Option Failure) :
    Outcome :=
  match failure with
  | none => { status := 0, output := s.output, errors := s.errors }
  | some f =>
    let (s, _) := s.printError (f.render painter color)
    { status := f.category.exitStatus, output := s.output, errors := s.errors }

end Streams

/-- A source and the name of its file, if it comes from one. -/
structure Loaded where
  source : Text
  file : Option Text := none

/-- The program comes from a flag or from a file, never from both. -/
def loadProgram (h : Host) (a : Arguments) : Except Text Loaded :=
  match a.value? (text "code"), a.positional with
  | some _, _ :: _ => .error (text "multiple input sources specified")
  | some code, [] => .ok { source := code.toText }
  | none, [] => .error (text "no program provided; pass a FILE or --code")
  | none, path :: _ =>
    match h.contents path with
    | .ok source => .ok { source, file := some path }
    | .error e => .error (e.message path)

/-- The passes without the named ones. -/
def dropPasses (passes : PassSet) : List Text → Except Text PassSet
  | [] => .ok passes
  | name :: rest =>
    match Pass.ofName? name with
    | some p => dropPasses (passes.without (.single p)) rest
    | none => .error (Pass.unknownMessage name)

/-- The options that the settings ask for, and what is logged. -/
def readOptions (s : Settings) : Except Text (Options × Log.Threshold) :=
  let ending := s.getText "eof"
  match EndPolicy.ofName? ending with
  | none => .error (EndPolicy.unknownMessage ending)
  | some policy =>
    match dropPasses .all (s.getList "disable-pass") with
    | .error e => .error e
    | .ok passes =>
      match Log.Threshold.read (s.getText "log-level") with
      | .error e => .error e
      | .ok threshold =>
        let o : Options :=
          { policy
            passes
            boundsCheck := !s.getBool "no-bounds-check"
            interpreter := s.getBool "no-jit"
            fallback := s.getBool "fallback" }
        .ok (o.withTapeSize (s.getInt64 "tape-size"), threshold)

/-- Runs a compiled program on the streams; none if a loop outlasts the fuel. -/
def runCompiled (fuel : Nat) (h : Host) (s : Settings) (o : Options) (t : Log.Threshold)
    (c : Compiled) (streams : Streams) : Option (Streams × Option Failure) :=
  let console : Console := { reader := h.input, sink := streams.output, policy := o.policy }
  (c.run fuel {} o console).map fun f =>
    let streams := { streams with output := f.console.sink }.log h.clock t f.events
    if s.getBool "stats" then
      let stats := match f.result with | some r => r.stats | none => c.stats
      let document := stats.toJson h.painter (s.wantsColor h.errorColor) ++ text "\n"
      let (streams, failure) := streams.printError document
      (streams, f.failure <|> failure)
    else (streams, f.failure)

/-- Prints a compiled program in a form, or runs it if the form is empty. -/
def useCompiled (fuel : Nat) (h : Host) (s : Settings) (o : Options) (t : Log.Threshold)
    (c : Compiled) (streams : Streams) : Option (Streams × Option Failure) :=
  let form := s.getText "dump"
  let color := s.wantsColor h.outputColor
  if form.isEmpty then runCompiled fuel h s o t c streams
  else if form == text "ir" then some (streams.print (c.optimized.coloredListing h.painter color))
  else if form == text "asm" then
    match c.machineCode o.boundsCheck with
    | .ok code => some (streams.print (Native.listingTable h.painter color code.listing))
    | .error d => some (streams, some (.internal d))
  else
    some (streams, some (.plain
      (text "unknown dump format " ++ form.quote ++ text " (expected ir or asm)")))

/-- Compiles the program that the settings name, and uses it. -/
def runSettings (fuel : Nat) (h : Host) (s : Settings) (streams : Streams) :
    Option (Streams × Option Failure) :=
  let fail (message : Text) := some (streams, some (Failure.plain message))
  let size := s.getInt64 "tape-size"
  if size ≤ 0 then
    fail (text "tape size must be positive, got " ++ Text.integer size.toInt)
  else
    match loadProgram h s.arguments with
    | .error e => fail e
    | .ok program =>
      match readOptions s with
      | .error e => fail e
      | .ok (o, threshold) =>
        let o := { o with file := program.file.getD [] }
        match Compiled.compile program.source o with
        | (.error e, events) => some (streams.log h.clock threshold events, some (.parse e))
        | (.ok c, events) =>
          useCompiled fuel h s o threshold c (streams.log h.clock threshold events)

def versionLine : Text := text "bfjit version dev (unknown)\n"

/-- The words that ask for suggestions, and whether they are described. -/
def completionWords : List (Text × Bool) :=
  [(text "__complete", true), (text "__completeNoDesc", false)]

/-- Suggests how the arguments may go on. -/
def complete (h : Host) (describe : Bool) (arguments : List Text) : Outcome :=
  let streams : Streams := { output := h.output, errors := h.errors }
  if arguments.isEmpty then
    streams.finish h.painter h.errorColor
      (some (.plain (text "requires at least 1 arg(s), only received 0")))
  else
    match Settings.load h {} with
    | .error e => streams.finish h.painter h.errorColor (some (.plain e))
    | .ok _ =>
      let c := Completion.of arguments
      let streams := streams.printLines (c.lines describe)
      (streams.printError c.closing).1.finish h.painter h.errorColor none

/-- Works on the arguments of the command; none if a loop outlasts the fuel. -/
def executeWith (fuel : Nat) (h : Host) (arguments : List Text) : Option Outcome :=
  let streams : Streams := { output := h.output, errors := h.errors }
  let fail (message : Text) := some (streams.finish h.painter h.errorColor (some (.plain message)))
  match Arguments.read arguments with
  | .error e => fail e
  | .ok a =>
    if a.has "help" then
      some ((streams.print Help.page).1.finish h.painter h.errorColor none)
    else if a.has "version" then
      let (streams, failure) := streams.print versionLine
      some (streams.finish h.painter h.errorColor failure)
    else if a.positional.length > 1 then
      fail (text "accepts at most 1 arg(s), received " ++ Text.decimal a.positional.length)
    else
      match Settings.load h a with
      | .error e => fail e
      | .ok s =>
        (runSettings fuel h s streams).map fun (streams, failure) =>
          streams.finish h.painter (s.wantsColor h.errorColor) failure

/-- The flag takes the argument after it as its value. Help and the version are not known yet where
this counts, so they are taken for flags with a value. -/
def takesNext (argument : Text) : Bool :=
  let isSwitch (f : Option Flag) : Bool :=
    match f with
    | some f => f.type == .boolean && f.name != text "help" && f.name != text "version"
    | none => false
  !argument.contains 0x3D &&
    match argument with
    | 0x2D :: 0x2D :: name => !isSwitch (Flag.named? name)
    | [0x2D, b] => !isSwitch (Flag.lettered? b)
    | _ => false

/-- The first word that is no flag and no value of a flag, and the arguments without it. -/
def takeWord : List Text → Option (Text × List Text)
  | [] => none
  | argument :: rest =>
    if argument == text "--" then none
    else if takesNext argument then
      match rest with
      | value :: next :: more =>
        (takeWord (next :: more)).map fun (word, others) => (word, argument :: value :: others)
      | _ => none
    else if argument.isEmpty || argument.head? == some 0x2D then
      (takeWord rest).map fun (word, others) => (word, argument :: others)
    else some (argument, rest)

/-- The whole command; none if a loop of the program outlasts the fuel. -/
def execute (fuel : Nat) (h : Host) (arguments : List Text) : Option Outcome :=
  match takeWord arguments with
  | none => executeWith fuel h arguments
  | some (word, others) =>
    match completionWords.lookup word with
    | some describe => some (complete h describe others)
    | none => executeWith fuel h arguments

/-- The files that the command may look at. -/
def paths (h : Host) (arguments : List Text) : List Text :=
  match Arguments.read arguments with
  | .error _ => []
  | .ok a =>
    let s : Settings := { arguments := a, environment := h.environment }
    a.positional ++ [s.getText "config"] ++ (h.home.map Settings.homeFiles).getD []

/-- The command gets as far as running a program that reads. -/
def readsInput (h : Host) (arguments : List Text) : Bool :=
  match Arguments.read arguments with
  | .error _ => false
  | .ok a =>
    match Settings.load h a, loadProgram h a with
    | .ok s, .ok program =>
      !a.has "help" && !a.has "version" && (s.getText "dump").isEmpty &&
        program.source.contains Kind.input.byte
    | _, _ => false

end TapeLang.Command
