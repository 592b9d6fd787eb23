import GraphRest.Data.Datum
import GraphRest.Decimal.Double
import GraphRest.Text.Basic
import GraphRest.Text.Case

/-!
# Settings from the environment

Variables with a common beginning of their names give settings; two underscores lead to a field of a
record. Their values are written in a small notation of their own for lists, records and scalars, and a
text that is not of this notation stands for itself.
-/

namespace GraphRest.Environment

/-! ## Values -/

/-- Whether a character is a blank of ASCII. -/
def isSpace (c : Char) : Bool := [' ', '\t', '\n', '\r', '\x0c'].contains c

/-- Whether a character ends a scalar without quotes. -/
def isSeparator (c : Char) : Bool := [',', '{', '}', '[', ']'].contains c

/-- Whether a character may stand in a name without quotes. -/
def isNameChar (c : Char) : Bool := c.isAlphanum || c = '_' || c = '-'

/-- Drops the blanks at the head of a text. -/
def skipSpace (s : List Char) : List Char := s.dropWhile isSpace

/-- A scalar without quotes: a number or text. Only with a point in it a number is a floating-point
one. -/
def wordDatum (word : List Char) : Datum :=
  let text := String.ofList (Text.trimChars word)
  let double := if text.toList.contains '.' then Decimal.double? text else none
  match double, Decimal.whole? (Nat.pow 2 64) text with
  | some d, _ => .float d
  | none, some n => .whole n
  | none, none =>
      match (Text.after? "-" text).bind (Decimal.digits? ·.toList) with
      | some n => if n ≤ Nat.pow 2 63 then .negative n else .text text
      | none => .text text

def hexValue? (c : Char) : Option Nat :=
  if c.isDigit then some (c.toNat - '0'.toNat)
  else if 'a' ≤ c ∧ c ≤ 'f' then some (c.toNat - 'a'.toNat + 10)
  else if 'A' ≤ c ∧ c ≤ 'F' then some (c.toNat - 'A'.toNat + 10)
  else none

/-- Takes the character of a code point in so many hexadecimal digits. -/
def takeCodePoint (digits : Nat) (s : List Char) : Option (Char × List Char) :=
  if s.length < digits then none
  else
    ((s.take digits).foldl (fun n c => do return (← n) * 16 + (← hexValue? c)) (some 0)).bind fun n =>
      if n.isValidChar then some (Char.ofNat n, s.drop digits) else none

def takeEscape : List Char → Option (Char × List Char)
  | '"' :: s => some ('"', s)
  | '\\' :: s => some ('\\', s)
  | 'b' :: s => some ('\x08', s)
  | 'f' :: s => some ('\x0c', s)
  | 'n' :: s => some ('\n', s)
  | 'r' :: s => some ('\r', s)
  | 't' :: s => some ('\t', s)
  | 'u' :: s => takeCodePoint 4 s
  | 'U' :: s => takeCodePoint 8 s
  | _ => none

/-- Whether a character may stand in quotes as it is. -/
def isQuotable (c : Char) : Bool := c = '\t' || (' ' ≤ c && c ≠ '\x7f')

/-- Takes a text behind its opening quote. -/
def takeQuoted : Nat → List Char → Option (List Char × List Char)
  | 0, _ => none
  | _ + 1, [] => none
  | _ + 1, '"' :: s => some ([], s)
  | fuel + 1, '\\' :: s => do
      let (c, s) ← takeEscape s
      let (text, s) ← takeQuoted fuel s
      return (c :: text, s)
  | fuel + 1, c :: s =>
      if isQuotable c then do
        let (text, s) ← takeQuoted fuel s
        return (c :: text, s)
      else none

def takeText (s : List Char) : Option (String × List Char) :=
  match s with
  | '"' :: s => (takeQuoted (s.length + 1) s).map fun (text, s) => (String.ofList text, s)
  | _ => none

def takeName (s : List Char) : Option (String × List Char) :=
  match s with
  | '"' :: _ => takeText s
  | _ =>
      let name := s.takeWhile isNameChar
      if name.isEmpty then none else some (String.ofList name, s.drop name.length)

mutual

/-- Takes a value with the blanks around it. The fuel bounds the number of characters. -/
def take : Nat → List Char → Option (Datum × List Char)
  | 0, _ => none
  | fuel + 1, s => do
      let s := skipSpace s
      let (d, s) ← match s with
        | 't' :: 'r' :: 'u' :: 'e' :: s => some (Datum.bool true, s)
        | 'f' :: 'a' :: 'l' :: 's' :: 'e' :: s => some (.bool false, s)
        | '[' :: s => (takeItems fuel s).map fun (items, s) => (.list items, s)
        | '{' :: s => (takeEntries fuel s).map fun (entries, s) => (.ofEntries entries, s)
        | '"' :: _ => (takeText s).map fun (text, s) => (.text text, s)
        | '\'' :: c :: '\'' :: s => some (.char c, s)
        | '\'' :: _ => none
        | _ =>
            let word := s.takeWhile fun c => !isSeparator c
            some (wordDatum word, s.drop word.length)
      return (d, skipSpace s)

/-- Takes the items of a list behind its opening bracket. A comma may stand behind the last. -/
def takeItems : Nat → List Char → Option (List Datum × List Char)
  | 0, _ => none
  | fuel + 1, s =>
      match s with
      | ']' :: s => some ([], s)
      | _ => do
          let (d, s) ← take fuel s
          match s with
          | ',' :: s => do
              let (ds, s) ← takeItems fuel s
              return (d :: ds, s)
          | ']' :: s => return ([d], s)
          | _ => none

/-- Takes the entries of a record behind its opening brace. A comma may stand behind the last. -/
def takeEntries : Nat → List Char → Option (List (String × Datum) × List Char)
  | 0, _ => none
  | fuel + 1, s =>
      match s with
      | '}' :: s => some ([], s)
      | _ => do
          let (name, s) ← takeName (skipSpace s)
          match skipSpace s with
          | '=' :: s => do
              let (d, s) ← take fuel s
              match s with
              | ',' :: s => do
                  let (es, s) ← takeEntries fuel s
                  return ((name, d) :: es, s)
              | '}' :: s => return ([(name, d)], s)
              | _ => none
          | _ => none

end

/-- The value of a variable. A text that the notation does not cover as a whole stands for itself. -/
def datumOf (value : String) : Datum :=
  let s := Text.trimChars value.toList
  match take (s.length + 1) s with
  | some (d, []) => d
  | _ => .text (String.ofList s)

/-! ## Variables -/

/-- The beginning of the names of variables that give settings, in any case. -/
def namePrefix : String := "GRAPHQL_OPENAPI_"

/-- Writes every pair of underscores as a point. -/
def pointed : List Char → List Char
  | '_' :: '_' :: s => '.' :: pointed s
  | c :: s => c :: pointed s
  | [] => []

def cutAtPoints : List Char → List (List Char)
  | [] => [[]]
  | '.' :: s => [] :: cutAtPoints s
  | c :: s =>
      match cutAtPoints s with
      | part :: parts => (c :: part) :: parts
      | [] => [[c]]

/-- The path of the setting that a variable gives; none of its parts is empty. -/
def path? (name : String) : Option (List String) := do
  let rest ← Text.after? (Text.lowerAscii namePrefix) (Text.lowerAscii (Text.trim name))
  let parts := (cutAtPoints (pointed rest.toList)).map String.ofList
  if parts.contains "" then none else return parts

/-- A value at the end of a path of records. -/
def nested : List String → Datum → Datum
  | [], d => d
  | name :: path, d => .fields [(name, nested path d)]

/-- The settings of an environment; of two variables for one setting the later wins. -/
def settings (pairs : List (String × String)) : Datum :=
  pairs.foldl
    (fun d (name, value) =>
      match path? name with
      | some path => (nested path (datumOf value)).laidOver d
      | none => d)
    (.fields [])

end GraphRest.Environment
