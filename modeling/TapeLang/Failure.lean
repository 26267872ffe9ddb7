import TapeLang.Instruction
import TapeLang.Source

namespace TapeLang

/-- The codes shown in brackets after the kind of a failure. -/
inductive Code where
  | unmatchedClose
  | unmatchedOpen
  | mapping
  | platform
  | tapeRange
  | compiler
deriving DecidableEq, Repr

namespace Code

def all : List Code := [unmatchedClose, unmatchedOpen, mapping, platform, tapeRange, compiler]

def name : Code → Text
  | unmatchedClose => text "E1001"
  | unmatchedOpen => text "E1002"
  | mapping => text "E2001"
  | platform => text "E2002"
  | tapeRange => text "E3001"
  | compiler => text "E9001"

def description : Code → Text
  | unmatchedClose => text "unmatched ']'"
  | unmatchedOpen => text "unmatched '['"
  | mapping => text "memory mapping failed"
  | platform => text "unsupported platform"
  | tapeRange => text "tape access out of range"
  | compiler => text "internal compiler error"

def ofName? (t : Text) : Option Code := all.find? fun c => c.name == t

/-- The description of the code with the given name, known or not. -/
def describe (t : Text) : Text :=
  match ofName? t with
  | some c => c.description
  | none => text "unknown error"

end Code

inductive Category where
  | none
  | parse
  | environment
  | runtime
  | internal
  | unknown
deriving DecidableEq, Repr

namespace Category

def name : Category → Text
  | none => text "none"
  | parse => text "parse"
  | environment => text "environment"
  | runtime => text "runtime"
  | internal => text "internal"
  | unknown => text "unknown"

def ofNumber (n : Int) : Category :=
  if n = 0 then none
  else if n = 1 then parse
  else if n = 2 then environment
  else if n = 3 then runtime
  else if n = 4 then internal
  else unknown

/-- The exit status of a process that ends with a failure of this category. -/
def exitStatus : Category → Nat
  | none => 0
  | parse => 2
  | environment => 3
  | internal => 4
  | runtime => 1
  | unknown => 1

end Category

/-- A bracket without a partner, with the line it stands on. -/
structure ParseError where
  bracket : Kind
  position : Position
  sourceLine : Text
deriving DecidableEq, Repr

namespace ParseError

def code (e : ParseError) : Code :=
  if e.bracket = .loopOpen then .unmatchedOpen else .unmatchedClose

def message (e : ParseError) : Text :=
  text "parse error: " ++ e.code.description ++ text " at " ++ e.position.toText ++
    text " (offset " ++ Text.integer e.position.offset.toInt ++ text ")"

end ParseError

/-- An access to a cell outside a tape of the given size. -/
structure Trap where
  address : Int64
  tapeSize : Int64
deriving DecidableEq, Repr

def Trap.message (t : Trap) : Text :=
  text "runtime trap: tape access at cell " ++ Text.integer t.address.toInt ++
    text " is outside [0, " ++ Text.integer t.tapeSize.toInt ++ text ")"

/-- A defect of the compiler in one of its parts. -/
structure Defect where
  component : Text
  detail : Text
deriving DecidableEq, Repr

def Defect.message (d : Defect) : Text :=
  text "internal compiler error in " ++ d.component ++ text ": " ++ d.detail

/-- Everything that can go wrong, as a tree of causes. -/
inductive Failure where
  | plain (message : Text)
  | cancelled
  | unsupportedPlatform
  | parse (e : ParseError)
  | environment (operation : Text) (cause : Option Failure)
  | internal (d : Defect)
  | trap (t : Trap)
  | within (label : Text) (cause : Option Failure)
  | joined (causes : List Failure)
  | several (causes : List Failure)

namespace Failure

mutual

def message : Failure → Text
  | plain m => m
  | cancelled => text "context canceled"
  | unsupportedPlatform => text "unsupported platform"
  | parse e => e.message
  | environment operation cause =>
    text "environment error: " ++ operation ++ text ": " ++ causeMessage (text "<nil>") cause
  | internal d => d.message
  | trap t => t.message
  | within label cause => label ++ text ": " ++ causeMessage (text "%!w(<nil>)") cause
  | joined causes => Text.join [Text.newline] (messages causes)
  | several causes =>
    (if causes.length = 1 then text "1 error occurred:"
      else Text.decimal causes.length ++ text " errors occurred:") ++
    text "\n\t" ++ Text.join (text "\n\t") ((messages causes).map (text "* " ++ ·)) ++ text "\n\n"

/-- The message of a cause, or `absent` without one. -/
def causeMessage (absent : Text) : Option Failure → Text
  | none => absent
  | some f => f.message

def messages : List Failure → List Text
  | [] => []
  | f :: rest => f.message :: messages rest

end

mutual

/-- The failure and all its causes, depth first. -/
def chain : Failure → List Failure
  | environment operation cause => environment operation cause :: causeChain cause
  | within label cause => within label cause :: causeChain cause
  | joined causes => joined causes :: chains causes
  | several causes => several causes :: chains causes
  | f => [f]

def causeChain : Option Failure → List Failure
  | none => []
  | some f => f.chain

def chains : List Failure → List Failure
  | [] => []
  | f :: rest => f.chain ++ chains rest

end

/-- The category that the failure states itself. -/
def ownCategory? : Failure → Option Category
  | parse _ => some .parse
  | environment _ _ => some .environment
  | trap _ => some .runtime
  | internal _ => some .internal
  | _ => none

def category (f : Failure) : Category := (f.chain.findSome? ownCategory?).getD .unknown

def isUnsupportedPlatform : Failure → Bool
  | unsupportedPlatform => true
  | _ => false

def isUnsupported (f : Failure) : Bool := f.chain.any isUnsupportedPlatform

def isCancellation : Failure → Bool
  | cancelled => true
  | _ => false

def isCancelled (f : Failure) : Bool := f.chain.any isCancellation

def defect? : Failure → Option Defect
  | internal d => some d
  | _ => none

def isInternal (f : Failure) : Bool := f.chain.any fun g => g.defect?.isSome

def parseError? : Failure → Option ParseError
  | parse e => some e
  | _ => none

def trap? : Failure → Option Trap
  | trap t => some t
  | _ => none

/-- The code of an environment failure depends on what caused it. -/
def environmentCode (cause : Option Failure) : Code :=
  if (causeChain cause).any isUnsupportedPlatform then .platform else .mapping

/-- The code that the failure states itself. -/
def code? : Failure → Option Code
  | parse e => some e.code
  | environment _ cause => some (environmentCode cause)
  | trap _ => some .tapeRange
  | internal _ => some .compiler
  | _ => none

/-- The failures of a list: itself if it is one, else the single failure. -/
def members : Failure → List Failure
  | several causes => causes
  | f => [f]

/-- A failure followed by one more; lists on either side are flattened. -/
def followedBy (first : Option Failure) (next : Failure) : Failure :=
  several ((first.map members).getD [] ++ next.members)

/-- A failure, joined by what went wrong while cleaning up after it. -/
def andThen (first next : Option Failure) : Option Failure :=
  match next with
  | none => first
  | some f => some (followedBy first f)

end Failure

/-- The category of an outcome, where success is no failure. -/
def Category.of : Option Failure → Category
  | .none => .none
  | .some f => f.category

end TapeLang
