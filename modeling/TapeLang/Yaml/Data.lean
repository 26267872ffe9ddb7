import TapeLang.Double
import TapeLang.Moment

namespace TapeLang.Yaml

/-- The data that a document holds. -/
inductive Data where
  | null
  | boolean (b : Bool)
  | integer (n : Int)
  | real (x : Double)
  | moment (m : Moment)
  | text (t : Text)
  | list (items : List Data)
  /-- Keys and values by turns. A table is `textual` if all its keys are texts. -/
  | table (textual : Bool) (entries : List Data)
deriving BEq

namespace Data

def joined (textual : Bool) : List Text → Text
  | key :: value :: rest =>
    key ++ TapeLang.text ":" ++ value ++
      (if rest.isEmpty then [] else TapeLang.text ", ") ++ joined textual rest
  | _ => []

mutual

/-- The data as it is shown in a message. -/
def shown : Data → Text
  | null => TapeLang.text "interface \x7b\x7d(nil)"
  | boolean b => if b then TapeLang.text "true" else TapeLang.text "false"
  | integer n => Text.integer n
  | real x => x.toText
  | moment m => m.toText
  | text t => t.quote
  | list items =>
    TapeLang.text "[]interface \x7b\x7d\x7b" ++ Text.join (TapeLang.text ", ") (shownAll items) ++
      TapeLang.text "\x7d"
  | table textual entries =>
    (if textual then TapeLang.text "map[string]interface \x7b\x7d\x7b"
      else TapeLang.text "map[interface \x7b\x7d]interface \x7b\x7d\x7b") ++
      joined textual (shownAll entries) ++ TapeLang.text "\x7d"

def shownAll : List Data → List Text
  | [] => []
  | d :: rest => d.shown :: shownAll rest

end

end Data

end TapeLang.Yaml
