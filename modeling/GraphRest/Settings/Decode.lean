import GraphRest.Data.Datum
import GraphRest.Decimal.Notation
import GraphRest.Document.Basic
import GraphRest.Log.Basic
import GraphRest.Options.Basic
import GraphRest.Options.Json
import GraphRest.Yaml.Failure

/-!
# Settings

What a run of the command is told: where the schema is and where the document goes, how it is logged,
and the options of the conversion. Settings are read out of a record. What is left out keeps its default,
fields of other names are passed over, and something is said on a record of another shape.
-/

namespace GraphRest

/-- Where log lines go and which of them are written. -/
structure Logging where
  level : LogLevel := .info
  /-- The folder of the log files; without one the lines go to the standard error. -/
  path : Option String := none
  rotation : Rotation := .daily
  deriving DecidableEq

/-- Everything that a run of the command is told. -/
structure Settings where
  /-- The file of the schema. -/
  schema : Option String := none
  /-- The file of the document. -/
  output : String := "openapi.yaml"
  format : OutputFormat := .yaml
  /-- A file with a table of suffixes. -/
  customPlurals : Option String := none
  logging : Logging := {}
  options : Options := {}
  deriving DecidableEq

/-! ## Refusals -/

/-- What is wrong with a setting. -/
inductive SettingFlaw where
  | wrongType (found : Json.Found) (wanted : String)
  | unknownWord (word : String) (known : List String)
  | noSuchPosition (position count : Nat)
  | tooLong (length limit : Nat)
  | unreadable (message : String)
  /-- The file cannot be read as a record. -/
  | unreadFile (failure : Yaml.Failure)
  deriving DecidableEq

/-- Why settings were refused: the flaw, the path of the setting, and the path of the value that has to
answer for it. -/
structure Refusal where
  flaw : SettingFlaw
  path : List String := []
  holder : List String := []
  deriving DecidableEq

/-! ## Messages -/

/-- Whether a whole number is too wide for 64 bits. -/
def isWide (n : Nat) : Bool := Nat.pow 2 64 ≤ n

/-- Whether a number with a minus sign is too wide for 64 bits. -/
def isWideNegative (n : Nat) : Bool := Nat.pow 2 63 < n

/-- Something found, in the words for settings. -/
def foundMessage : Json.Found → String
  | .null => "unit"
  | .bool b => "bool " ++ String.ofList (Json.bool b)
  | .whole n =>
      if isWide n then "integer `" ++ toString n ++ "` as u128"
      else "unsigned int `" ++ toString n ++ "`"
  | .negative n =>
      if isWideNegative n then "integer `" ++ Json.minus n ++ "` as i128"
      else "signed int `" ++ Json.minus n ++ "`"
  | .float d => "float `" ++ Decimal.positionalText d ++ "`"
  | .char c => "char '" ++ String.ofList (if c = '\'' then ['\\', '\''] else Text.quotedChar c) ++ "'"
  | .string s => "string " ++ Text.quoted s
  | .list => "sequence"
  | .fields => "map"

def alternatives (words : List String) : String :=
  match words with
  | [a, b] => "`" ++ a ++ "` or `" ++ b ++ "`"
  | _ => "one of " ++ String.intercalate ", " (words.map fun w => "`" ++ w ++ "`")

def SettingFlaw.message : SettingFlaw → String
  | wrongType found wanted => "invalid type: found " ++ foundMessage found ++ ", expected " ++ wanted
  | unknownWord word known =>
      "unknown variant: found `" ++ word ++ "`, expected `" ++ alternatives known ++ "`"
  | noSuchPosition position count =>
      "invalid value unsigned int `" ++ toString position ++ "`, expected variant index 0 <= i < " ++
        toString count
  | tooLong length limit =>
      "invalid length " ++ toString length ++ ", expected " ++ toString limit ++
        (if limit = 1 then " element" else " elements") ++ " in sequence"
  | unreadable message => message
  | unreadFile failure => failure.message

/-! ## Decoders -/

abbrev SettingDecoder (α : Type) := Datum → Except Refusal α

namespace SettingDecoder

/-- What stands in a place, in words. -/
def found : Datum → Json.Found
  | .null => .null
  | .bool b => .bool b
  | .whole n => .whole n
  | .negative n => .negative n
  | .float d => .float d
  | .char c => .char c
  | .text s => .string s
  | .list _ => .list
  | .fields _ => .fields

/-- Refuses a value of the wrong type. -/
def misfit {α : Type} (wanted : String) (d : Datum) : Except Refusal α :=
  .error { flaw := .wrongType (found d) wanted }

/-- Says of a refusal that it is about a part of a value. -/
def within {α : Type} (part : String) : Except Refusal α → Except Refusal α
  | .ok a => .ok a
  | .error r => .error { r with path := part :: r.path, holder := part :: r.holder }

/-- Blames a refusal on the value around it. -/
def blameOuter {α : Type} (part : String) : Except Refusal α → Except Refusal α
  | .ok a => .ok a
  | .error r => .error { r with path := part :: r.path }

/-- A text; a single character is one too. -/
def text (wanted : String) : SettingDecoder String
  | .text s => .ok s
  | .char c => .ok (String.singleton c)
  | d => misfit wanted d

/-- A path of a file or a folder. -/
def filePath : SettingDecoder String := text "path string"

def nullable {α : Type} (decode : SettingDecoder α) : SettingDecoder (Option α)
  | .null => .ok none
  | d => (decode d).map some

/-- The words for the formats, in order. -/
def formatWords : List String := [OutputFormat.yaml.word, OutputFormat.json.word]

/-- A format by its word, which has to be in lower case. -/
def formatWord (w : String) : Except Refusal OutputFormat :=
  if w = OutputFormat.yaml.word then .ok .yaml
  else if w = OutputFormat.json.word then .ok .json
  else .error { flaw := .unknownWord w formatWords }

def formatPosition : Nat → Except Refusal OutputFormat
  | 0 => .ok .yaml
  | 1 => .ok .json
  | n => .error { flaw := .noSuchPosition n formatWords.length }

/-- A format: its word, its position, or a record whose first field has the word for a name and no
value. -/
def outputFormat : SettingDecoder OutputFormat
  | .text w => formatWord w
  | .whole n => if n < Nat.pow 2 32 then formatPosition n else misfit "enum OutputFormat" (.whole n)
  | .char c => misfit "enum OutputFormat" (.text (String.singleton c))
  | .fields [] => misfit "enum" (.fields [])
  | .fields ((w, d) :: _) =>
      match formatWord w, d with
      | .ok f, .null => .ok f
      | .ok _, d => within w (misfit "unit" d)
      | .error r, _ => .error r
  | d => misfit "enum OutputFormat" d

/-! ## Records -/

/-- A field of a record: its name, and how its value changes the record. -/
structure SettingField (σ : Type) where
  name : String
  assign : Datum → σ → Except Refusal σ

/-- A field that is decoded and then set. -/
def SettingField.of {σ α : Type} (name : String) (decode : SettingDecoder α) (set : α → σ → σ) :
    SettingField σ :=
  ⟨name, fun d s => within name ((decode d).map (set · s))⟩

/-- A field whose text is looked up and then set; a text that is not found is blamed on the record. -/
def SettingField.ofWord {σ α : Type} (name : String) (lookup : String → Option α)
    (message : String → String) (set : α → σ → σ) : SettingField σ :=
  ⟨name, fun d s => do
    let w ← within name (text "a string" d)
    match lookup w with
    | some a => return set a s
    | none => blameOuter name (.error { flaw := .unreadable (message w) })⟩

/-- Sets the fields of a record that are given. Values under other names are only checked. -/
def assignEntries {σ : Type} (fields : List (SettingField σ)) (check : Datum → Except Refusal Unit) :
    List (String × Datum) → σ → Except Refusal σ
  | [], s => .ok s
  | (name, d) :: es, s =>
      match fields.find? (·.name = name) with
      | some field => (field.assign d s).bind (assignEntries fields check es)
      | none => (within name (check d)).bind fun _ => assignEntries fields check es s

/-- Sets the first fields of a record from the items of a list; more items than fields are passed
over. -/
def assignItems {σ : Type} : List (SettingField σ) → List Datum → σ → Except Refusal σ
  | field :: fields, d :: ds, s => (field.assign d s).bind (assignItems fields ds)
  | _, _, s => .ok s

/-- The fields under their positions, as the items of a list are named. -/
def numbered {σ : Type} (fields : List (SettingField σ)) : List (SettingField σ) :=
  fields.zipIdx.map fun (field, i) =>
    let rename : List String → List String
      | _ :: path => toString i :: path
      | [] => []
    ⟨field.name, fun d s => match field.assign d s with
      | .ok s => .ok s
      | .error r => .error { r with path := rename r.path, holder := rename r.holder }⟩

def pass : SettingDecoder Unit := fun _ => .ok ()

mutual

/-- Any value without numbers that are too wide for 64 bits. -/
def narrow : SettingDecoder Unit
  | .whole n => if isWide n then misfit "any value" (.whole n) else .ok ()
  | .negative n => if isWideNegative n then misfit "any value" (.negative n) else .ok ()
  | .list items => narrowItems 0 items
  | .fields entries => narrowEntries entries
  | _ => .ok ()

/-- Items without numbers that are too wide. -/
def narrowItems (position : Nat) : List Datum → Except Refusal Unit
  | [] => .ok ()
  | d :: ds => (within (toString position) (narrow d)).bind fun _ => narrowItems (position + 1) ds

/-- Entries without numbers that are too wide. -/
def narrowEntries : List (String × Datum) → Except Refusal Unit
  | [] => .ok ()
  | (name, d) :: es => (within name (narrow d)).bind fun _ => narrowEntries es

end

/-- A record that starts from its default. What stands under other names than those of its fields is
only checked. -/
def record {σ : Type} (wanted : String) (fields : List (SettingField σ))
    (check : Datum → Except Refusal Unit) (default : σ) : SettingDecoder σ
  | .fields entries => assignEntries fields check entries default
  | .list items => assignItems (numbered fields) items default
  | d => misfit wanted d

end SettingDecoder

open SettingDecoder

def Logging.settingFields : List (SettingField Logging) := [
  .ofWord "level" LogLevel.ofText? (fun _ => LogLevel.unknownMessage) fun v l => { l with level := v },
  .of "path" (nullable filePath) fun v l => { l with path := v },
  .ofWord "rotation" Rotation.ofText? Rotation.unknownMessage fun v l => { l with rotation := v }]

def Logging.ofDatum : SettingDecoder Logging := record "struct Logging" Logging.settingFields pass {}

mutual

def Datum.node : Datum → Json.Node
  | .null => .scalar none .null
  | .bool b => .scalar none (.bool b)
  | .whole n => .scalar none (.whole n)
  | .negative n => .scalar none (.negative n)
  | .float d => .scalar none (.float d)
  | .char c => .scalar none (.char c)
  | .text s => .scalar none (.string s)
  | .list items => .list none (Datum.nodes items) none
  | .fields entries => .fields none (Datum.entryNodes entries) none

def Datum.nodes : List Datum → List Json.Node
  | [] => []
  | d :: ds => d.node :: Datum.nodes ds

def Datum.entryNodes : List (String × Datum) → List (String × Option Json.Mark × Json.Node)
  | [] => []
  | (name, d) :: es => (name, none, d.node) :: Datum.entryNodes es

end

/-- What is wrong with a setting of which JSON would say that it does not fit. -/
def SettingFlaw.ofMisfit : Json.Misfit → SettingFlaw
  | .wrongType found wanted _ => .wrongType found wanted
  | .tooLong length limit => .tooLong length limit
  | .duplicateField name _ => .unreadable ("duplicate field `" ++ name ++ "`")
  | .broken failure => .unreadable failure.fault.message

def Options.ofDatum : SettingDecoder Options := fun d =>
  (Options.ofJson d.node).mapError fun m => { flaw := .ofMisfit m }

namespace Settings

/-- The fields of settings that are not options of the conversion. -/
def ownFields : List (SettingField Settings) := [
  .of "schema" (nullable filePath) fun v s => { s with schema := v },
  .of "output" filePath fun v s => { s with output := v },
  .of "format" outputFormat fun v s => { s with format := v },
  .of "custom_plurals" (nullable filePath) fun v s => { s with customPlurals := v },
  .of "logging" Logging.ofDatum fun v s => { s with logging := v }]

/-- Decodes settings: their own fields first, then the options beside them, which are kept until then and
may hold no numbers that are too wide. -/
def ofDatum : SettingDecoder Settings := fun d => do
  let s ← record "struct Config" ownFields narrow {} d
  let options ← Options.ofDatum d
  return { s with options }

end Settings

end GraphRest
