import TapeLang.Command.Flag

namespace TapeLang.Command.Help

def about : Text := text "bfjit parses a program, optimizes it, compiles it to AArch64 machine
code in executable memory and runs it. Program input is read from stdin and
output is written to stdout.

Configuration is read from ~/.bfjit.yaml (or --config) and from BFJIT_*
environment variables, for example BFJIT_TAPE_SIZE=65536."

def typeName : FlagType → Text
  | .text => text " string"
  | .boolean => []
  | .integer => text " int"
  | .list => text " strings"

def front (f : Flag) : Text :=
  (match f.letter with
    | some b => text "  -" ++ [b] ++ text ", --"
    | none => text "      --") ++
  f.name ++ typeName f.type

def standardNote (f : Flag) : Text :=
  match f.standard with
  | some (.text t) => text " (default " ++ t.quote ++ text ")"
  | some v => text " (default " ++ v.toText ++ text ")"
  | none => []

def flagLine (width : Nat) (f : Flag) : Text :=
  front f ++ Text.blanks (width - (front f).length) ++ text "   " ++ f.usage ++ standardNote f ++
    text "\n"

def flagLines : Text :=
  let width := (Flag.all.map fun f => (front f).length).foldl max 0
  Flag.all.flatMap (flagLine width)

/-- What the command does, how it is called, and its flags in aligned columns. -/
def page : Text :=
  about ++ text "\n\nUsage:\n  bfjit [flags] FILE\n\nFlags:\n" ++ flagLines

end TapeLang.Command.Help
