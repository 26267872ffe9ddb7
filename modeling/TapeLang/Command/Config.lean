import TapeLang.Command.Value
import TapeLang.Yaml.Document

namespace TapeLang.Command.Config

/-- What a configuration file gives. An entry without a value gives nothing. -/
abbrev Entries := List (Text × Option Value)

def value? (e : Entries) (name : Text) : Option Value := (e.lookup name).join

/-- The keys in lower case. One that has another case in the file goes before one that has not. -/
def fold (e : Entries) : Entries :=
  let (exact, other) := e.partition fun (key, _) => key == key.lower
  (other.map fun (key, value) => (key.lower, value)) ++ exact

def ofTable (entries : List (Yaml.Data × Yaml.Data)) : Entries :=
  entries.map fun (key, value) =>
    (((Value.ofData? key).map Value.toText).getD [], Value.ofData? value)

def read (t : Text) : Except Yaml.Fault Entries :=
  match Yaml.readTable t with
  | .ok entries => .ok (fold (ofTable entries))
  | .error e => .error e

end TapeLang.Command.Config
