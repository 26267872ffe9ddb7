import TapeLang.Yaml.Data
import TapeLang.Yaml.Fault

namespace TapeLang.Yaml

namespace Tag

def string : Text := text "!!str"

def boolean : Text := text "!!bool"

def integer : Text := text "!!int"

def real : Text := text "!!float"

def null : Text := text "!!null"

def moment : Text := text "!!timestamp"

def binary : Text := text "!!binary"

def sequence : Text := text "!!seq"

def mapping : Text := text "!!map"

def merge : Text := text "!!merge"

def longStem : Text := text "tag:yaml.org,2002:"

/-- The tags of the format are written with two marks. -/
def short (tag : Text) : Text :=
  if longStem.isPrefixOf tag then text "!!" ++ tag.drop longStem.length else tag

/-- The tags that say what a scalar is. -/
def isKnown (tag : Text) : Bool :=
  tag.isEmpty || [string, boolean, integer, real, null, moment].contains tag

end Tag

namespace Scalar

/-- The words that stand for something else than themselves. -/
def words : List (Text × Text × Data) :=
  (["true", "True", "TRUE"].map fun w => (text w, Tag.boolean, Data.boolean true)) ++
  (["false", "False", "FALSE"].map fun w => (text w, Tag.boolean, Data.boolean false)) ++
  (["", "~", "null", "Null", "NULL"].map fun w => (text w, Tag.null, Data.null)) ++
  ([".nan", ".NaN", ".NAN"].map fun w => (text w, Tag.real, Data.real .undefined)) ++
  ([".inf", ".Inf", ".INF", "+.inf", "+.Inf", "+.INF"].map fun w =>
    (text w, Tag.real, Data.real (.infinite false))) ++
  ["-.inf", "-.Inf", "-.INF"].map fun w => (text w, Tag.real, Data.real (.infinite true))

/-- What the first character of a scalar announces. -/
inductive Hint where
  | number
  | point
  | word
  | none
deriving DecidableEq, Repr

def hint (t : Text) : Hint :=
  match t with
  | [] => .word
  | b :: _ =>
    if (0x30 ≤ b && b ≤ 0x39) || b == 0x2B || b == 0x2D then .number
    else if b == 0x2E then .point
    else if (text "yYnNtTfFoO~").contains b then .word
    else .none

/-- An integer with or without a sign; without one it may have 64 bits. -/
def integer? (t : Text) : Option Int :=
  match Text.readInteger t with
  | .ok n => some n
  | .error _ => (Text.readMagnitude t).toOption.map Int.ofNat

/-- A number that starts with a point; underscores may stand between its digits. -/
def pointed? (t : Text) : Option Double :=
  if t.contains Text.underscore && !Text.wellParted t then none
  else Double.read? (t.filter (· != Text.underscore))

/-- The mark of a base may stand before a sign. -/
def lateSigned? (t : Text) : Option Int :=
  match t with
  | 0x30 :: mark :: sign :: digits =>
    let base := if mark == 0x62 then 2 else if mark == 0x6F then 8 else 0
    if base = 0 || digits.isEmpty || !(sign == 0x2B || sign == 0x2D) then none
    else
      match Text.readDigits base 0 digits with
      | .ok n =>
        if sign == 0x2D then if n ≤ Nat.pow 2 63 then some (-(n : Int)) else none
        else if n < Nat.pow 2 63 then some n
        else none
      | .error _ => none
  | _ => none

/-- A number, a point in time, or none of them. Underscores in numbers do not count. -/
def number? (t : Text) (mayBeMoment : Bool) : Option (Text × Data) :=
  match if mayBeMoment then Moment.read? t else none with
  | some m => some (Tag.moment, .moment m)
  | none =>
    let plain := t.filter (· != Text.underscore)
    match integer? plain, Double.read? plain, lateSigned? plain with
    | some n, _, _ => some (Tag.integer, .integer n)
    | none, some x, _ => some (Tag.real, .real x)
    | none, none, some n => some (Tag.integer, .integer n)
    | none, none, none => none

/-- What a scalar is if nothing but its text tells. -/
def untagged (t : Text) (mayBeMoment : Bool) : Text × Data :=
  let found :=
    match hint t with
    | .none => none
    | .word => words.lookup t
    | .point => words.lookup t <|> (pointed? t).map fun x => (Tag.real, Data.real x)
    | .number => words.lookup t <|> number? t mayBeMoment
  found.getD (Tag.string, .text t)

/-- A tag that calls an integer a real makes it one if it has a sign bit to spare. -/
def widen? (tag found : Text) (d : Data) : Option Data :=
  match d with
  | .integer n =>
    if tag == Tag.real && found == Tag.integer && n < Int.pow 2 63 then
      some (.real (.ofInt n))
    else none
  | _ => none

/-- What a scalar is under a tag, which may be empty. Tags of other formats say nothing. -/
def resolve (tag t : Text) : Except Fault (Text × Data) :=
  if !Tag.isKnown tag then .ok (tag, .text t)
  else if tag == Tag.string then .ok (tag, .text t)
  else
    let (found, d) := untagged t (tag.isEmpty || tag == Tag.moment)
    if tag.isEmpty || tag == found then .ok (found, d)
    else
      match widen? tag found d with
      | some d => .ok (Tag.real, d)
      | none => .error (.mistagged found t tag)

/-- The value of a digit of base 64. -/
def base64Value? (b : UInt8) : Option Nat :=
  if 0x41 ≤ b && b ≤ 0x5A then some (b.toNat - 0x41)
  else if 0x61 ≤ b && b ≤ 0x7A then some (b.toNat - 0x61 + 26)
  else if 0x30 ≤ b && b ≤ 0x39 then some (b.toNat - 0x30 + 52)
  else if b == 0x2B then some 62
  else if b == 0x2F then some 63
  else none

/-- The bytes of groups of four digits; the last group may be filled up with equals signs. -/
def base64? : Text → Option Text
  | [] => some []
  | [a, b, 0x3D, 0x3D] => do
    let n := (← base64Value? a) * 64 + (← base64Value? b)
    some [(n / 16).toUInt8]
  | [a, b, c, 0x3D] => do
    let n := ((← base64Value? a) * 64 + (← base64Value? b)) * 64 + (← base64Value? c)
    some [(n / 1024).toUInt8, (n / 4 % 256).toUInt8]
  | a :: b :: c :: d :: rest => do
    let n := (((← base64Value? a) * 64 + (← base64Value? b)) * 64 + (← base64Value? c)) * 64 +
      (← base64Value? d)
    some ((n / 65536).toUInt8 :: (n / 256 % 256).toUInt8 :: (n % 256).toUInt8 :: (← base64? rest))
  | _ => none

/-- What a scalar holds; the bytes of a binary one are a text. -/
def data (tag t : Text) : Except Fault (Text × Data) :=
  match resolve tag t with
  | .error e => .error e
  | .ok (found, d) =>
    if found != Tag.binary then .ok (found, d)
    else
      match base64? (t.filter fun b => b != 0x0A && b != 0x0D) with
      | some bytes => .ok (found, .text bytes)
      | none => .error .base64

end Scalar

end TapeLang.Yaml
