import TapeLang.Text.Blank
import TapeLang.Text.Letter
import TapeLang.Text.Quoted

namespace TapeLang

inductive Pass where
  | coalesce
  | zeroIdiom
  | offsetFold
deriving DecidableEq, Repr

namespace Pass

/-- The passes in the order they run. -/
def all : List Pass := [coalesce, zeroIdiom, offsetFold]

def bit : Pass → UInt8
  | coalesce => 1
  | zeroIdiom => 2
  | offsetFold => 4

def name : Pass → Text
  | coalesce => text "coalesce"
  | zeroIdiom => text "zero-idiom"
  | offsetFold => text "offset-fold"

def names : List Text := all.map name

/-- Names are read without regard to case and to white space around them. -/
def ofName? (t : Text) : Option Pass := all.find? fun p => p.name == t.trim.lower

def unknownMessage (t : Text) : Text :=
  text "unknown optimization pass " ++ t.quote ++ text " (expected one of " ++
    Text.join (text ", ") names ++ text ")"

end Pass

/-- A set of passes: eight bits, of which three name a pass; the others are kept and mean nothing.
-/
structure PassSet where
  bits : UInt8
deriving DecidableEq, Repr

namespace PassSet

def none : PassSet := ⟨0⟩

def all : PassSet := ⟨7⟩

def single (p : Pass) : PassSet := ⟨p.bit⟩

/-- Every bit of `q` is in `p`. -/
def has (p q : PassSet) : Bool := p.bits &&& q.bits == q.bits

def contains (s : PassSet) (p : Pass) : Bool := s.has (single p)

def without (p q : PassSet) : PassSet := ⟨p.bits &&& ~~~q.bits⟩

def name (s : PassSet) : Text :=
  if s.bits = 0 then text "none"
  else Text.join (text "+") ((Pass.all.filter s.contains).map Pass.name)

end PassSet

end TapeLang
