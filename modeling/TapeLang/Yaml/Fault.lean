import TapeLang.Text.Quoted

namespace TapeLang.Yaml

/-- A position in the characters of a document, counted from zero. -/
structure Mark where
  index : Nat := 0
  line : Nat := 0
  column : Nat := 0
deriving DecidableEq, Repr

/-- A breach of the rules for characters, tokens or their order. -/
inductive Problem where
  | leadingOctet
  | incompleteOctets
  | trailingOctet
  | octetCount
  | surrogate
  | incompleteUnit
  | incompletePair
  | strayLowSurrogate
  | noLowSurrogate
  | control
  | noColon
  | depth
  | entryNotAllowed
  | keyNotAllowed
  | valueNotAllowed
  | noToken
  | directiveName
  | directiveLetter
  | directiveUnknown
  | versionPoint
  | versionLength
  | versionNumber
  | noBlank
  | noBlankOrBreak
  | noCommentOrBreak
  | anchorName
  | tagClosing
  | tagMark
  | tagUri
  | uriOctet
  | uriLeadingOctet
  | uriTrailingOctet
  | zeroIndent
  | tabForIndent
  | tabInPlain
  | indicatorInQuotes
  | streamEnd
  | escapeUnknown
  | escapeDigit
  | escapeCode
  | noDocumentStart
  | versionTwice
  | versionOther
  | tagTwice
  | tagHandle
  | noContent
  | noDash
  | noKey
  | noSequenceEnd
  | noMappingEnd
deriving DecidableEq, Repr

def Problem.message : Problem → Text
  | leadingOctet => text "invalid leading UTF-8 octet"
  | incompleteOctets => text "incomplete UTF-8 octet sequence"
  | trailingOctet => text "invalid trailing UTF-8 octet"
  | octetCount => text "invalid length of a UTF-8 sequence"
  | surrogate => text "invalid Unicode character"
  | incompleteUnit => text "incomplete UTF-16 character"
  | incompletePair => text "incomplete UTF-16 surrogate pair"
  | strayLowSurrogate => text "unexpected low surrogate area"
  | noLowSurrogate => text "expected low surrogate area"
  | control => text "control characters are not allowed"
  | noColon => text "could not find expected ':'"
  | depth => text "exceeded max depth of 10000"
  | entryNotAllowed => text "block sequence entries are not allowed in this context"
  | keyNotAllowed => text "mapping keys are not allowed in this context"
  | valueNotAllowed => text "mapping values are not allowed in this context"
  | noToken => text "found character that cannot start any token"
  | directiveName => text "could not find expected directive name"
  | directiveLetter => text "found unexpected non-alphabetical character"
  | directiveUnknown => text "found unknown directive name"
  | versionPoint => text "did not find expected digit or '.' character"
  | versionLength => text "found extremely long version number"
  | versionNumber => text "did not find expected version number"
  | noBlank => text "did not find expected whitespace"
  | noBlankOrBreak => text "did not find expected whitespace or line break"
  | noCommentOrBreak => text "did not find expected comment or line break"
  | anchorName => text "did not find expected alphabetic or numeric character"
  | tagClosing => text "did not find the expected '>'"
  | tagMark => text "did not find expected '!'"
  | tagUri => text "did not find expected tag URI"
  | uriOctet => text "did not find URI escaped octet"
  | uriLeadingOctet => text "found an incorrect leading UTF-8 octet"
  | uriTrailingOctet => text "found an incorrect trailing UTF-8 octet"
  | zeroIndent => text "found an indentation indicator equal to 0"
  | tabForIndent => text "found a tab character where an indentation space is expected"
  | tabInPlain => text "found a tab character that violates indentation"
  | indicatorInQuotes => text "found unexpected document indicator"
  | streamEnd => text "found unexpected end of stream"
  | escapeUnknown => text "found unknown escape character"
  | escapeDigit => text "did not find expected hexdecimal number"
  | escapeCode => text "found invalid Unicode character escape code"
  | noDocumentStart => text "did not find expected <document start>"
  | versionTwice => text "found duplicate %YAML directive"
  | versionOther => text "found incompatible YAML document"
  | tagTwice => text "found duplicate %TAG directive"
  | tagHandle => text "found undefined tag handle"
  | noContent => text "did not find expected node content"
  | noDash => text "did not find expected '-' indicator"
  | noKey => text "did not find expected key"
  | noSequenceEnd => text "did not find expected ',' or ']'"
  | noMappingEnd => text "did not find expected ',' or '\x7d'"

/-- A part of a document that does not fit where it stands, at a line counted from one. -/
inductive Misfit where
  /-- A value of another kind than the `wanted` one. -/
  | kind (line : Nat) (found wanted : Text)
  /-- A key that stands on an earlier line, too. -/
  | repeated (line : Nat) (key : Text) (first : Nat)
deriving DecidableEq, Repr

def Misfit.message : Misfit → Text
  | kind line found wanted =>
    text "line " ++ Text.decimal line ++ text ": cannot unmarshal " ++ found ++ text " into " ++
      wanted
  | repeated line key first =>
    text "line " ++ Text.decimal line ++ text ": mapping key " ++ key.quote ++
      text " already defined at line " ++ Text.decimal first

/-- What is wrong with a document, with a line where one is known. -/
inductive Fault where
  /-- Bytes that are no characters of a document. -/
  | stream (p : Problem)
  /-- Characters that are no token. The context is where the token starts. -/
  | token (p : Problem) (context position : Mark)
  /-- Tokens in a wrong order. The context is where the surrounding node starts. -/
  | order (p : Problem) (context position : Mark)
  | unknownAnchor (name : Text)
  | cyclicAnchor (name : Text)
  /-- A scalar that is not what its tag calls it. -/
  | mistagged (found value tag : Text)
  | base64
  | merge
  | key (shown : Text)
  | aliases
  | misfits (all : List Misfit)
deriving DecidableEq, Repr

namespace Fault

/-- The line of the context, or of the position if the context is on the first line, in which case
it may be left out. A token is counted from one, a node from zero. -/
def place (context position : Mark) (extra : Nat) : Text :=
  let line := if context.line ≠ 0 then context.line else position.line
  if line = 0 then [] else text "line " ++ Text.decimal (line + extra) ++ text ": "

def backquoted (t : Text) : Text := [0x60] ++ t ++ [0x60]

def describe : Fault → Text
  | stream p => p.message
  | token p context position => place context position 1 ++ p.message
  | order p context position => place context position 0 ++ p.message
  | unknownAnchor name => text "unknown anchor '" ++ name ++ text "' referenced"
  | cyclicAnchor name => text "anchor '" ++ name ++ text "' value contains itself"
  | mistagged found value tag =>
    text "cannot decode " ++ found ++ text " " ++ backquoted value ++ text " as a " ++ tag
  | base64 => text "!!binary value contains invalid base64 data"
  | merge => text "map merge requires map or sequence of maps as the value"
  | key shown => text "invalid map key: " ++ shown
  | aliases => text "document contains excessive aliasing"
  | misfits all => text "unmarshal errors:" ++ all.flatMap fun m => text "\n  " ++ m.message

def message (f : Fault) : Text := text "yaml: " ++ f.describe

end Fault

end TapeLang.Yaml
