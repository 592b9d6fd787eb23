import GraphRest.Json.Node
import GraphRest.Text.Quoted

/-!
# Decoding JSON values

Reading values of a known shape out of JSON, and what is said on one of another shape. A record can be
given as an object of some of its fields or as a list of its first fields.
-/

namespace GraphRest.Json

/-- What stands where something else was wanted. -/
inductive Found where
  | null
  | bool (b : Bool)
  | whole (n : Nat)
  | negative (n : Nat)
  | float (d : Double)
  | char (c : Char)
  | string (s : String)
  | list
  | fields
  deriving DecidableEq

/-- A number with a minus sign as messages show it; zero goes without. -/
def minus (n : Nat) : String := toString (-(n : Int))

/-- Something found, in the words of JSON. -/
def Found.message : Found → String
  | null => "null"
  | bool b => "boolean `" ++ String.ofList (Json.bool b) ++ "`"
  | whole n => "integer `" ++ toString n ++ "`"
  | negative n => "integer `" ++ minus n ++ "`"
  | float d => "floating point `" ++ String.ofList (number (.double d)) ++ "`"
  | char c => "character `" ++ String.singleton c ++ "`"
  | string s => "string " ++ Text.quoted s
  | list => "sequence"
  | fields => "map"

/-- Why a JSON value has not the wanted shape. -/
inductive Misfit where
  | broken (failure : Failure)
  | wrongType (found : Found) (wanted : String) (mark : Option Mark)
  | duplicateField (name : String) (mark : Option Mark)
  | tooLong (length limit : Nat)
  deriving DecidableEq

/-- The place of a misfit in words; nothing if no text stands behind the value. -/
def atMark : Option Mark → String
  | some m => " at line " ++ toString m.line ++ " column " ++ toString m.column
  | none => ""

def Misfit.message : Misfit → String
  | broken failure => failure.fault.message ++ atMark (some failure.mark)
  | wrongType found wanted mark =>
      "invalid type: " ++ found.message ++ ", expected " ++ wanted ++ atMark mark
  | duplicateField name mark => "duplicate field `" ++ name ++ "`" ++ atMark mark
  | tooLong length _ =>
      "invalid length " ++ toString length ++ ", expected fewer elements in array"

abbrev Decoder (α : Type) := Node → Except Misfit α

namespace Decoder

/-- What is said on a value that is not of the wanted type. A list or an object is found unfit where it
begins, anything else where it ends. -/
def misfit (wanted : String) : Node → Misfit
  | .broken _ failure => .broken failure
  | .scalar span value =>
      let found (f : Found) := .wrongType f wanted (span.map Span.stop)
      match value with
      | .flawed failure => .broken failure
      | .null => found .null
      | .bool b => found (.bool b)
      | .whole n => found (.whole n)
      | .negative n => found (.negative n)
      | .float d => found (.float d)
      | .char c => found (.char c)
      | .string s => found (.string s)
  | .list span .. => .wrongType .list wanted (span.map Span.start)
  | .fields span .. => .wrongType .fields wanted (span.map Span.start)

def string : Decoder String
  | .scalar _ (.string s) => .ok s
  | n => .error (misfit "a string" n)

def bool : Decoder Bool
  | .scalar _ (.bool b) => .ok b
  | n => .error (misfit "a boolean" n)

def optional {α : Type} (decode : Decoder α) : Decoder (Option α)
  | .scalar _ .null => .ok none
  | n => (decode n).map some

/-- Ends a list or an object, which may break off. -/
def close {α : Type} (ending : Option Failure) (a : α) : Except Misfit α :=
  match ending with
  | some failure => .error (.broken failure)
  | none => .ok a

def list {α : Type} (decode : Decoder α) : Decoder (List α)
  | .list _ items ending => do close ending (← items.mapM decode)
  | n => .error (misfit "a sequence" n)

/-- The entries of an object under any keys, in order. -/
def entries {α : Type} (decode : Decoder α) : Decoder (List (String × α))
  | .fields _ es ending => do
      let es ← es.mapM fun (key, _, n) => do return (key, ← decode n)
      close ending es
  | n => .error (misfit "a map" n)

/-! ## Records -/

/-- A field of a record: its name, and how its value changes the record. -/
structure RecordField (σ : Type) where
  name : String
  assign : Node → σ → Except Misfit σ

/-- A field that is decoded and then set. -/
def RecordField.of {σ α : Type} (name : String) (decode : Decoder α) (set : α → σ → σ) :
    RecordField σ :=
  ⟨name, fun n s => (decode n).map (set · s)⟩

/-- Decodes the fields of an object into a record. Fields of other names are passed over; a field may
not come twice. -/
def assignEntries {σ : Type} (fields : List (RecordField σ)) (seen : List String) :
    List (String × Option Mark × Node) → σ → Except Misfit σ
  | [], s => .ok s
  | (key, mark, n) :: es, s =>
      match fields.find? (·.name = key) with
      | none =>
          match n.fault? with
          | some failure => .error (.broken failure)
          | none => assignEntries fields seen es s
      | some field =>
          if seen.contains key then .error (.duplicateField key mark)
          else (field.assign n s).bind (assignEntries fields (key :: seen) es)

/-- Decodes the items of a list into the first fields of a record; the items left over. -/
def assignItems {σ : Type} : List (RecordField σ) → List Node → σ → Except Misfit (σ × List Node)
  | _, [], s => .ok (s, [])
  | [], ns, s => .ok (s, ns)
  | field :: fields, n :: ns, s => (field.assign n s).bind (assignItems fields ns)

/-- What is said on the items of a list behind the last field of a record. -/
def excess (length limit : Nat) (n : Node) : Misfit :=
  match n.start? with
  | some m => .broken ⟨.trailingCharacters, ⟨m.line, m.column + 1⟩⟩
  | none => .tooLong length limit

/-- How a list that holds all fields of a record breaks off: only its bracket could have followed. -/
def fullEnding : Option Failure → Option Failure
  | some ⟨.endInValue, mark⟩ => some ⟨.trailingCharacters, mark⟩
  | some ⟨.expectedCommaOrBracket, mark⟩ => some ⟨.trailingCharacters, mark⟩
  | ending => ending

/-- A record that starts from its default. -/
def record {σ : Type} (wanted : String) (fields : List (RecordField σ)) (default : σ) : Decoder σ
  | .fields _ es ending => (assignEntries fields [] es default).bind (close ending)
  | .list _ items ending =>
      (assignItems fields items default).bind fun
        | (s, []) => close (if items.length = fields.length then fullEnding ending else ending) s
        | (_, n :: _) => .error (excess items.length fields.length n)
  | n => .error (misfit wanted n)

end Decoder

end GraphRest.Json
