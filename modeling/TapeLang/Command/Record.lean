import TapeLang.Text.Rune
import TapeLang.Text.Blank

namespace TapeLang.Command.Record

def comma : UInt8 := 0x2C

def quoteMark : UInt8 := 0x22

def carriageReturn : UInt8 := 0x0D

/-- What is wrong with a record, at a line and column counted from one. -/
inductive Fault where
  | bareQuote (start line column : Nat)
  | strayQuote (start line column : Nat)
  | nothing
deriving DecidableEq, Repr

def placeText (start line column : Nat) : Text :=
  (if start = line then [] else text "record on line " ++ Text.decimal start ++ text "; ") ++
    text "parse error on line " ++ Text.decimal line ++ text ", column " ++
    Text.decimal column ++ text ": "

def Fault.message : Fault → Text
  | bareQuote start line column =>
    placeText start line column ++ text "bare \" in non-quoted-field"
  | strayQuote start line column =>
    placeText start line column ++ text "extraneous or missing \" in quoted-field"
  | nothing => text "EOF"

/-- Line breaks as single newlines, without a carriage return at the very end. -/
def normalize : Text → Text
  | [] => []
  | b :: rest =>
    if b == carriageReturn then
      match rest with
      | [] => []
      | c :: more => if c == Text.newline then normalize (c :: more) else b :: normalize (c :: more)
    else b :: normalize rest

/-- Where in a field the reader stands. -/
inductive Place where
  | start
  | bare
  | quoted
  | afterQuote
deriving DecidableEq, Repr

/-- The reader: the fields done and the current one, both with the last part first. -/
structure State where
  start : Nat
  line : Nat
  column : Nat := 1
  place : Place := .start
  field : Text := []
  fields : List Text := []

namespace State

def push (s : State) (b : UInt8) : State := { s with field := b :: s.field, column := s.column + 1 }

/-- The fields in order once the current one is done. -/
def close (s : State) : List Text := (s.field.reverse :: s.fields).reverse

def nextField (s : State) : State :=
  { s with
    field := []
    fields := s.field.reverse :: s.fields
    place := .start
    column := s.column + 1 }

/-- A newline inside quotes; at the end of the text the line is not left. -/
def breakLine (s : State) (rest : Text) : State :=
  if rest.isEmpty then s.push Text.newline
  else { s with field := Text.newline :: s.field, line := s.line + 1, column := 1 }

def read (s : State) : Text → Except Fault (List Text)
  | [] =>
    match s.place with
    | .quoted => .error (.strayQuote s.start s.line s.column)
    | _ => .ok s.close
  | b :: rest =>
    match s.place with
    | .quoted =>
      if b == quoteMark then
        read { s with place := .afterQuote, column := s.column + 1 } rest
      else if b == Text.newline then read (s.breakLine rest) rest
      else read (s.push b) rest
    | .afterQuote =>
      if b == quoteMark then read { s.push b with place := .quoted } rest
      else if b == comma then read s.nextField rest
      else if b == Text.newline then .ok s.close
      else .error (.strayQuote s.start s.line (s.column - 1))
    | .start =>
      if b == quoteMark then read { s with place := .quoted, column := s.column + 1 } rest
      else if b == comma then read s.nextField rest
      else if b == Text.newline then .ok s.close
      else read { s.push b with place := .bare } rest
    | .bare =>
      if b == quoteMark then .error (.bareQuote s.start s.line s.column)
      else if b == comma then read s.nextField rest
      else if b == Text.newline then .ok s.close
      else read (s.push b) rest

end State

/-- The fields of the first record; an empty text has none. -/
def read (t : Text) : Except Fault (List Text) :=
  if t.isEmpty then .ok [] else
  let t := normalize t
  let skipped := (t.takeWhile (· == Text.newline)).length
  match t.drop skipped with
  | [] => .error .nothing
  | record => State.read { start := skipped + 1, line := skipped + 1 } record

def startsBlank (t : Text) : Bool :=
  match t.runes with
  | r :: _ => r.isBlank
  | [] => false

def needsQuotes (t : Text) : Bool :=
  t == text "\\." || startsBlank t ||
    t.any fun b => b == comma || b == quoteMark || b == Text.newline || b == carriageReturn

/-- A field that holds a comma, a quote or a line break stands between quotes, and a quote inside it
is written twice. -/
def writeField (t : Text) : Text :=
  if needsQuotes t then
    text "\"" ++ t.flatMap (fun b => if b == quoteMark then [b, b] else [b]) ++ text "\""
  else t

def write (fields : List Text) : Text := Text.join (text ",") (fields.map writeField)

/-- The fields after they are written and read once more: a record of one empty field is an
empty text and so has none. -/
def settle (fields : List Text) : List Text :=
  match read (write fields) with
  | .ok fields => fields
  | .error _ => []

end TapeLang.Command.Record
