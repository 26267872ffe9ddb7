import TapeLang.Text.Json
import TapeLang.Text.Letter
import TapeLang.Text.Number
import TapeLang.Text.Quoted

namespace TapeLang.Log

inductive Level where
  | debug
  | warn
deriving DecidableEq, Repr

namespace Level

def number : Level → Int
  | debug => 0
  | warn => 2

def name : Level → Text
  | debug => text "debug"
  | warn => text "warn"

def short : Level → Text
  | debug => text "DBG"
  | warn => text "WRN"

end Level

inductive Value where
  | text (t : Text)
  | number (n : Int)
deriving DecidableEq, Repr

def Value.toJson : Value → Text
  | text t => t.logQuote
  | number n => Text.integer n

/-- What is logged, as a JSON object or as a line for a reader. -/
structure Event where
  level : Level
  /-- Why something failed, if the event reports that. -/
  error : Option Text := none
  fields : List (Text × Value) := []
  message : Text
deriving DecidableEq, Repr

namespace Event

def jsonField (key : Text) (value : Value) : Text := key.logQuote ++ text ":" ++ value.toJson

/-- The event as one line of JSON. -/
def toJson (e : Event) : Text :=
  let fields := [(text "level", Value.text e.level.name)] ++
    (match e.error with | some t => [(text "error", Value.text t)] | none => []) ++
    e.fields ++ [(text "message", Value.text e.message)]
  text "\x7b" ++ Text.join (text ",") (fields.map fun (k, v) => jsonField k v) ++ text "\x7d\n"

/-- A blank, a quote, a backslash or anything that is not printable ASCII. -/
def needsQuote (t : Text) : Bool :=
  t.any fun b => b ≤ 0x20 || b > 0x7E || b == 0x22 || b == 0x5C

/-- Stray bytes as replacement characters. -/
def repair (t : Text) : Text :=
  Text.ofRunes (t.runes.map fun r =>
    match r with
    | .char c => .char c
    | .stray _ => .char (Char.ofNat 0xFFFD))

def shown : Value → Text
  | .text t =>
    let t := repair t
    if needsQuote t then t.quote else t
  | .number n => Text.integer n

def before (a b : Text) : Bool := decide (a < b) || a == b

/-- The fields by name, the error before all others. -/
def sortedFields (e : Event) : List (Text × Value) :=
  (match e.error with | some t => [(text "error", Value.text t)] | none => []) ++
    e.fields.mergeSort (fun a b => before a.1 b.1)

/-- A time of day on a clock of twelve hours. -/
def clock (hour minute : Nat) : Text :=
  Text.decimal ((hour + 11) % 12 + 1) ++ text ":" ++ (if minute < 10 then text "0" else []) ++
    Text.decimal minute ++ (if hour < 12 then text "AM" else text "PM")

/-- The event as a line for a reader, with the time of day in front. -/
def toLine (clock : Text) (e : Event) : Text :=
  clock ++ text " " ++ e.level.short ++ text " " ++ e.message ++
    e.sortedFields.flatMap (fun (k, v) => text " " ++ k ++ text "=" ++ shown v) ++ text "\n"

end Event

/-- The lowest level that is shown. -/
structure Threshold where
  number : Int
deriving DecidableEq, Repr

namespace Threshold

def names : List (Text × Int) :=
  [(text "trace", -1), (text "debug", 0), (text "info", 1), (text "warn", 2), (text "error", 3),
    (text "fatal", 4), (text "panic", 5), (text "disabled", 7), (text "", 6)]

def allows (t : Threshold) (e : Event) : Bool := t.number ≤ e.level.number

/-- Names match without regard to case; the long s counts as s. -/
def foldRune : Rune → Rune
  | .char c => .char (if c.toNat = 0x17F then Char.ofNat 0x73 else c)
  | .stray b => .stray b

def fold (t : Text) : Text := Text.ofRunes (t.runes.map foldRune)

/-- A decimal number with an optional sign that fits in 64 bits. -/
def number? (t : Text) : Option Int :=
  let (negative, digits) := t.splitSign
  if digits.isDigits then
    let n : Int := if negative then -(digits.digitsValue : Int) else digits.digitsValue
    if -(Int.pow 2 63) ≤ n ∧ n < Int.pow 2 63 then some n else none
  else none

/-- Reads a level by name or by a number of eight bits, or tells what is wrong with it. -/
def read (t : Text) : Except Text Threshold :=
  let t := t.lower
  match names.lookup (fold t) with
  | some n => .ok ⟨n⟩
  | none =>
    match number? t with
    | none => .error (text "Unknown Level String: '" ++ t ++ text "', defaulting to NoLevel")
    | some n =>
      if n > 127 ∨ n < -128 then
        .error (text "Out-Of-Bounds Level: '" ++ Text.integer n ++ text "', defaulting to NoLevel")
      else .ok ⟨n⟩

end Threshold

end TapeLang.Log
