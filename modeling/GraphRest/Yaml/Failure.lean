import GraphRest.Decimal.Notation
import GraphRest.Json.Decode
import GraphRest.Yaml.Cursor

/-!
# Failures of reading YAML

What can be wrong with a YAML text, where it shows, and what was being read when it was met.
-/

namespace GraphRest.Yaml

/-- What can be wrong with the notation of a text. -/
inductive Fault where
  | noToken
  | noColon
  | strayDash
  | strayKey
  | strayValue
  | noDirectiveName
  | strayInDirectiveName
  | unknownDirective
  | behindDirective
  | noVersionNumber
  | longVersionNumber
  | noVersionPoint
  | noAnchorName
  | noTagMark
  | noTagName
  | noTagEnd
  | behindTag
  | behindTagHandle
  | zeroIndentation
  | behindBlockHead
  | tabInIndentation
  | documentMark
  | endOfText
  | unknownEscape
  | noHexDigit
  | noCharacter
  | strayColon
  | tabInPlain
  | noDocumentStart
  | secondVersion
  | secondHandle
  | unknownVersion
  | unknownHandle
  | noContent
  | noDash
  | noKey
  | noListComma
  | noFieldsComma
  deriving DecidableEq

def Fault.message : Fault → String
  | noToken => "found character that cannot start any token"
  | noColon => "could not find expected ':'"
  | strayDash => "block sequence entries are not allowed in this context"
  | strayKey => "mapping keys are not allowed in this context"
  | strayValue => "mapping values are not allowed in this context"
  | noDirectiveName => "could not find expected directive name"
  | strayInDirectiveName => "found unexpected non-alphabetical character"
  | unknownDirective => "found unknown directive name"
  | behindDirective => "did not find expected comment or line break"
  | noVersionNumber => "did not find expected version number"
  | longVersionNumber => "found extremely long version number"
  | noVersionPoint => "did not find expected digit or '.' character"
  | noAnchorName => "did not find expected alphabetic or numeric character"
  | noTagMark => "did not find expected '!'"
  | noTagName => "did not find expected tag URI"
  | noTagEnd => "did not find the expected '>'"
  | behindTag => "did not find expected whitespace or line break"
  | behindTagHandle => "did not find expected whitespace"
  | zeroIndentation => "found an indentation indicator equal to 0"
  | behindBlockHead => "did not find expected comment or line break"
  | tabInIndentation => "found a tab character where an indentation space is expected"
  | documentMark => "found unexpected document indicator"
  | endOfText => "found unexpected end of stream"
  | unknownEscape => "found unknown escape character"
  | noHexDigit => "did not find expected hexdecimal number"
  | noCharacter => "found invalid Unicode character escape code"
  | strayColon => "found unexpected ':'"
  | tabInPlain => "found a tab character that violates indentation"
  | noDocumentStart => "did not find expected <document start>"
  | secondVersion => "found duplicate %YAML directive"
  | secondHandle => "found duplicate %TAG directive"
  | unknownVersion => "found incompatible YAML document"
  | unknownHandle => "found undefined tag handle"
  | noContent => "did not find expected node content"
  | noDash => "did not find expected '-' indicator"
  | noKey => "did not find expected key"
  | noListComma => "did not find expected ',' or ']'"
  | noFieldsComma => "did not find expected ',' or '\x7d'"

/-- What is being read. -/
inductive Construct where
  | nextToken
  | key
  | directive
  | version
  | handle
  | handleOrPrefix
  | anchor
  | aliasName
  | tag
  | tagName
  | blockScalar
  | quoted
  | escape
  | plain
  | node
  | blockNode
  | flowNode
  | blockList
  | blockFields
  | flowList
  | flowFields
  deriving DecidableEq

def Construct.message : Construct → String
  | nextToken => "while scanning for the next token"
  | key => "while scanning a simple key"
  | directive => "while scanning a directive"
  | version => "while scanning a %YAML directive"
  | handle => "while scanning a %TAG directive"
  | handleOrPrefix => "while parsing a %TAG directive"
  | anchor => "while scanning an anchor"
  | aliasName => "while scanning an alias"
  | tag => "while scanning a tag"
  | tagName => "while parsing a tag"
  | blockScalar => "while scanning a block scalar"
  | quoted => "while scanning a quoted scalar"
  | escape => "while parsing a quoted scalar"
  | plain => "while scanning a plain scalar"
  | node => "while parsing a node"
  | blockNode => "while parsing a block node"
  | flowNode => "while parsing a flow node"
  | blockList => "while parsing a block collection"
  | blockFields => "while parsing a block mapping"
  | flowList => "while parsing a flow sequence"
  | flowFields => "while parsing a flow mapping"

/-- A construct and the place where it begins. -/
structure Context where
  construct : Construct
  start : Place
  deriving DecidableEq

/-- Why a YAML text cannot be read. -/
inductive Failure where
  /-- A character that may not stand in a YAML text, behind so many bytes. -/
  | character (offset : Nat)
  | flawed (fault : Fault) (place : Place) (context : Option Context)
  | unknownAnchor (place : Place)
  /-- A value of another type than is wanted, at a path of field names and positions. -/
  | misfit (path : String) (found : Json.Found) (wanted : String) (place : Place)
  /-- A tag of a type that is not known. -/
  | unknownTag (path : String) (place : Place)
  /-- A text that is not of the type of its tag. -/
  | unfitTag (path text wanted : String) (place : Place)
  | secondDocument
  deriving DecidableEq

/-- A place in words, counted from one; the head of the text goes without. -/
def Place.message (p : Place) : String :=
  if p = {} then ""
  else " at line " ++ toString (p.line + 1) ++ " column " ++ toString (p.column + 1)

/-- Something found, in the words of YAML. -/
def foundMessage : Json.Found → String
  | .null => "unit value"
  | .float d =>
      let digits := Decimal.positionalText d
      "floating point `" ++ (if digits.contains '.' then digits else digits ++ ".0") ++ "`"
  | found => found.message

/-- A path in front of what is said on the value there. -/
def pathMessage (path : String) : String := if path.isEmpty then "" else path ++ ": "

/-- A context in words, for a fault at a place. -/
def Context.message (c : Context) (fault : Place) : String :=
  ", " ++ c.construct.message ++ if c.start = fault then "" else c.start.message

def Failure.message : Failure → String
  | character offset =>
      "control characters are not allowed" ++
        if offset = 0 then "" else " at position " ++ toString offset
  | flawed fault place context =>
      fault.message ++ place.message ++
        (match context with
          | some c => c.message place
          | none => "")
  | unknownAnchor place => "unknown anchor" ++ place.message
  | misfit path found wanted place =>
      pathMessage path ++ "invalid type: " ++ foundMessage found ++ ", expected " ++ wanted ++
        place.message
  | unknownTag path place =>
      pathMessage path ++ "invalid type: enum, expected a value" ++ place.message
  | unfitTag path text wanted place =>
      pathMessage path ++ "invalid value: string " ++ Text.quoted text ++ ", expected " ++ wanted ++
        place.message
  | secondDocument =>
      "deserializing from YAML containing more than one document is not supported"

end GraphRest.Yaml
