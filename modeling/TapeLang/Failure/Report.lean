import TapeLang.Failure
import TapeLang.Text.Escape

namespace TapeLang

/-- A failure laid out for a reader: a headline, the place, the source line with a caret, and a
note. -/
structure Report where
  code : Text := []
  kind : Text := []
  message : Text := []
  file : Text := []
  line : Int64 := 0
  column : Int64 := 0
  sourceLine : Text := []
  note : Text := []
deriving DecidableEq, Repr

namespace Report

def ofParseError (e : ParseError) : Report :=
  { code := e.code.name
    kind := text "parse error"
    message := e.code.description
    file := e.position.file
    line := e.position.lineNumber
    column := e.position.columnNumber
    sourceLine := e.sourceLine
    note := if e.code = .unmatchedOpen
      then text "this '[' is never closed; check that each '[' has a matching ']'"
      else text "this ']' has no opening '['; check that each '[' has a matching ']'" }

def ofEnvironment (operation : Text) (cause : Option Failure) : Report :=
  { code := (Failure.environmentCode cause).name
    kind := text "environment error"
    message := operation ++ text ": " ++ Failure.causeMessage (text "<nil>") cause
    note := text "compilation succeeded, but this host refused executable memory; try --no-jit" }

def ofTrap (t : Trap) : Report :=
  { code := Code.tapeRange.name
    kind := text "runtime trap"
    message := text "tape access at cell " ++ Text.integer t.address.toInt
    note := text "the tape holds " ++ Text.integer t.tapeSize.toInt ++ text " cells" }

def ofDefect (d : Defect) : Report :=
  { code := Code.compiler.name
    kind := text "internal compiler error"
    message := d.component ++ text ": " ++ d.detail
    note := text "this is a bug in the compiler, not in your program" }

def environment? : Failure → Option Report
  | .environment operation cause => some (ofEnvironment operation cause)
  | _ => none

/-- A parse error anywhere in the failure comes first, then a refusal by the host, a trap and a
defect; anything else shows its message alone. -/
def ofFailure (f : Failure) : Report :=
  ((f.chain.findSome? Failure.parseError?).map ofParseError <|>
    f.chain.findSome? environment? <|>
    (f.chain.findSome? Failure.trap?).map ofTrap <|>
    (f.chain.findSome? Failure.defect?).map ofDefect).getD
    { kind := text "error", message := f.message }

structure Palette where
  label : Text.Style := [.brightRed, .bold]
  code : Text.Style := [.brightBlack]
  colon : Text.Style := [.red]
  location : Text.Style := [.cyan]
  pipe : Text.Style := [.brightBlack]
  caret : Text.Style := [.brightRed]
  note : Text.Style := [.brightBlue]

/-- The width of the line number: two, or its length from 100 on. -/
def gutter (r : Report) : Nat :=
  if r.line ≥ 100 then (Text.integer r.line.toInt).length else 2

def padLeft (width : Nat) (t : Text) : Text := Text.blanks (width - t.length) ++ t

section
variable (painter : Text.Painter) (color : Bool)

/-- A report has a switch of its own: where it is off, nothing gets to the painter. -/
def paint (s : Text.Style) (t : Text) : Text := if color then painter.paint true s t else t

variable (p : Palette) (r : Report)

def headline : Text :=
  paint painter color p.label (if r.kind.isEmpty then text "error" else r.kind) ++
    (if r.code.isEmpty then [] else paint painter color p.code (text "[" ++ r.code ++ text "]")) ++
    paint painter color p.colon (text ": ") ++ r.message ++ [Text.newline]

def place : Text :=
  if r.line > 0 || !r.file.isEmpty then
    Text.blanks r.gutter ++ paint painter color p.location (text "-->") ++ text " " ++
      paint painter color p.location
        ((if r.file.isEmpty then [] else r.file ++ text ":") ++
          Text.integer r.line.toInt ++ text ":" ++ Text.integer r.column.toInt) ++
      [Text.newline]
  else []

def caretLine : Text :=
  if r.column > 0 then
    Text.blanks r.gutter ++ paint painter color p.pipe (text " | ") ++
      Text.blanks (r.column - 1).toNatClampNeg ++ paint painter color p.caret (text "^") ++
      [Text.newline]
  else []

def excerpt : Text :=
  if r.sourceLine.isEmpty then [] else
    Text.blanks r.gutter ++ paint painter color p.pipe (text " |\n") ++
      padLeft r.gutter (Text.integer r.line.toInt) ++ paint painter color p.pipe (text " | ") ++
      r.sourceLine ++ [Text.newline] ++ caretLine painter color p r

def noteLine : Text :=
  if r.note.isEmpty then [] else
    Text.blanks r.gutter ++ paint painter color p.pipe (text " = ") ++
      paint painter color p.note (text "note: ") ++ r.note ++ [Text.newline]

end

def render (r : Report) (painter : Text.Painter) (color : Bool) : Text :=
  let p : Palette := {}
  headline painter color p r ++ place painter color p r ++ excerpt painter color p r ++
    noteLine painter color p r

end Report

/-- The failure as shown to a reader. -/
def Failure.render (f : Failure) (painter : Text.Painter) (color : Bool) : Text :=
  (Report.ofFailure f).render painter color

end TapeLang
