import GraphRest.Data.SortedMap
import GraphRest.Decimal.Double
import GraphRest.Json.Writer

/-!
# JSON values and their places

A JSON value with the places in the text it was read from. Reading never fails as a whole: a fault in the
text becomes part of the value, so that who decodes the value meets faults and misfits in the order of
the text.
-/

namespace GraphRest.Json

/-- A place in a text: a line, counted from one, and the bytes of that line in front of it. -/
structure Mark where
  line : Nat
  column : Nat
  deriving DecidableEq

/-- What can be wrong with a text. -/
inductive Fault where
  | endInValue
  | endInList
  | endInObject
  | endInString
  | trailingCharacters
  | trailingComma
  | keyNotString
  | expectedColon
  | expectedCommaOrBracket
  | expectedCommaOrBrace
  | expectedWord
  | expectedValue
  | invalidNumber
  | numberOutOfRange
  | invalidEscape
  | endOfEscape
  | loneSurrogate
  | controlCharacter
  deriving DecidableEq

def Fault.message : Fault → String
  | endInValue => "EOF while parsing a value"
  | endInList => "EOF while parsing a list"
  | endInObject => "EOF while parsing an object"
  | endInString => "EOF while parsing a string"
  | trailingCharacters => "trailing characters"
  | trailingComma => "trailing comma"
  | keyNotString => "key must be a string"
  | expectedColon => "expected `:`"
  | expectedCommaOrBracket => "expected `,` or `]`"
  | expectedCommaOrBrace => "expected `,` or `\x7d`"
  | expectedWord => "expected ident"
  | expectedValue => "expected value"
  | invalidNumber => "invalid number"
  | numberOutOfRange => "number out of range"
  | invalidEscape => "invalid escape"
  | endOfEscape => "unexpected end of hex escape"
  | loneSurrogate => "lone leading surrogate in hex escape"
  | controlCharacter => "control character (\\u0000-\\u001F) found while parsing a string"

/-- A fault and the place where it shows. -/
structure Failure where
  fault : Fault
  mark : Mark
  deriving DecidableEq

/-- A value without parts. A single character is one that only other sources than JSON texts have, and a
flawed scalar is well formed but stands for no value. -/
inductive Scalar where
  | null
  | bool (b : Bool)
  | whole (n : Nat)
  /-- A number with a minus sign. -/
  | negative (n : Nat)
  | float (d : Double)
  | char (c : Char)
  | string (s : String)
  | flawed (failure : Failure)

/-- Where a value begins and ends. -/
structure Span where
  start : Mark
  stop : Mark

/-- A value with its place, if it was read from a text. A list or an object whose text breaks off has the
failure as its ending. -/
inductive Node where
  | scalar (span : Option Span) (value : Scalar)
  | list (span : Option Span) (items : List Node) (ending : Option Failure)
  | fields (span : Option Span) (entries : List (String × Option Mark × Node))
      (ending : Option Failure)
  | broken (start : Mark) (failure : Failure)

namespace Node

def start? : Node → Option Mark
  | scalar span _ => span.map Span.start
  | list span .. => span.map Span.start
  | fields span .. => span.map Span.start
  | broken start _ => some start

mutual

/-- The first fault in the text of a value, found without asking what the value is. -/
def fault? : Node → Option Failure
  | scalar .. => none
  | list _ items ending => (faultInItems? items).or ending
  | fields _ entries ending => (faultInEntries? entries).or ending
  | broken _ failure => some failure

def faultInItems? : List Node → Option Failure
  | [] => none
  | n :: ns => (fault? n).or (faultInItems? ns)

def faultInEntries? : List (String × Option Mark × Node) → Option Failure
  | [] => none
  | (_, _, n) :: ns => (fault? n).or (faultInEntries? ns)

end

mutual

/-- A value as one that no text stands behind: it has no places, its fields stand in byte order of their
names, and the last of several with one name remains. -/
def detached : Node → Node
  | scalar _ value => scalar none value
  | list _ items ending => list none (detachedItems items) ending
  | fields _ entries ending =>
      fields none
        ((SortedMap.ofList (detachedEntries entries)).entries.map fun (key, n) => (key, none, n))
        ending
  | broken start failure => broken start failure

def detachedItems : List Node → List Node
  | [] => []
  | n :: ns => detached n :: detachedItems ns

def detachedEntries : List (String × Option Mark × Node) → List (String × Node)
  | [] => []
  | (key, _, n) :: ns => (key, detached n) :: detachedEntries ns

end

end Node

end GraphRest.Json
