import TapeLang.Text.Blank
import TapeLang.Yaml.Data

namespace TapeLang.Command

/-- The value of a setting, typed if it comes from a flag or a configuration file and plain text if
it comes from the environment. Every setting takes from it what it can. -/
inductive Value where
  | text (t : Text)
  | integer (n : Int)
  | real (x : Double)
  | boolean (b : Bool)
  | moment (m : Moment)
  | list (items : List Text)
  /-- A table of other values, which no setting takes. -/
  | table
deriving DecidableEq, Repr

namespace Value

def toText : Value → Text
  | text t => t
  | integer n => Text.integer n
  | real x => x.toText
  | boolean b => if b then TapeLang.text "true" else TapeLang.text "false"
  | moment m => m.toText
  | list _ => []
  | table => []

/-- A text that is no number counts as zero, and a fraction is dropped. -/
def toInt64 : Value → Int64
  | text t =>
    match Text.readInteger (Text.dropZeroFraction t) with
    | .ok n => Int64.ofInt n
    | .error _ => 0
  | integer n => Int64.ofInt n
  | real x => x.toInt64
  | boolean b => if b then 1 else 0
  | moment _ => 0
  | list _ => 0
  | table => 0

/-- A text that is no truth value counts as false. -/
def toBool : Value → Bool
  | text t => (Text.readBool? t).getD false
  | integer n => n != 0
  | real x => !x.isZero
  | boolean b => b
  | moment _ => false
  | list _ => false
  | table => false

/-- A text holds one item for each of its words. -/
def toList : Value → List Text
  | text t => t.words
  | list items => items
  | table => []
  | v => [v.toText]

/-- A value without parts; null is none. -/
def ofScalar? : Yaml.Data → Option Value
  | .null => none
  | .boolean b => some (.boolean b)
  | .integer n => some (.integer n)
  | .real x => some (.real x)
  | .moment m => some (.moment m)
  | .text t => some (.text t)
  | .list _ => some (.list [])
  | .table _ _ => some .table

/-- The items of a list are taken as texts. -/
def ofData? : Yaml.Data → Option Value
  | .list items => some (.list (items.map fun d => ((ofScalar? d).map toText).getD []))
  | d => ofScalar? d

end Value

end TapeLang.Command
