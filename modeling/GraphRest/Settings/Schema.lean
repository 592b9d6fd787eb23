import GraphRest.Data.Datum
import GraphRest.Options.Json

/-!
# The schema of settings files

A JSON Schema of the settings, for editors that complete and check them. Types that have a name are
defined once and referred to. A value keeps to the schema if it is what the keywords demand.
-/

namespace GraphRest

/-- The types of JSON values that the schema names. -/
inductive ValueType where
  | null
  | boolean
  | string
  | list
  | record
  deriving DecidableEq

def ValueType.word : ValueType → String
  | null => "null"
  | boolean => "boolean"
  | string => "string"
  | list => "array"
  | record => "object"

/-- A part of a JSON Schema: what it says on a value. -/
structure ValueSchema where
  description : Option String := none
  /-- The name of the definition that says the rest. -/
  definition : Option String := none
  types : List ValueType := []
  /-- What holds for the values of a record under any keys. -/
  anyField : Option ValueSchema := none
  default : Option Tree := none
  /-- The texts to choose from. -/
  words : List String := []
  items : Option ValueSchema := none
  properties : List (String × ValueSchema) := []

namespace ValueSchema

def text : ValueSchema := { types := [.string] }

def nullableText : ValueSchema := { types := [.string, .null], default := some .null }

def oneOf (words : List String) : ValueSchema := { types := [.string], words }

def record (properties : List (String × ValueSchema)) : ValueSchema :=
  { types := [.record], properties }

def defined (name : String) : ValueSchema := { definition := some name }

def describe (description : String) (s : ValueSchema) : ValueSchema :=
  { s with description := some description }

def fallback (default : Tree) (s : ValueSchema) : ValueSchema := { s with default := some default }

/-- The types of a value as a data tree: one by its word, several as a list. -/
def typeField : List ValueType → List (String × Tree)
  | [] => []
  | [t] => [("type", .text t.word)]
  | ts => [("type", .texts (ts.map ValueType.word))]

def definitionPath (name : String) : String := "#/$defs/" ++ name

mutual

/-- The keywords of a schema as fields. -/
def keywords : ValueSchema → List (String × Tree)
  | ⟨description, definition, types, anyField, default, words, items, properties⟩ =>
    Tree.optional "description" .text description ++
    Tree.optional "$ref" (fun name => .text (definitionPath name)) definition ++
    typeField types ++
    schemaField "additionalProperties" anyField ++
    Tree.optional "default" id default ++
    Tree.nonEmptyList "enum" (words.map .text) ++
    schemaField "items" items ++
    Tree.nonEmptyFields "properties" (propertyTrees properties)

/-- A schema as a field, if there is one. -/
def schemaField (key : String) : Option ValueSchema → List (String × Tree)
  | none => []
  | some s => [(key, .fields (keywords s))]

def propertyTrees : List (String × ValueSchema) → List (String × Tree)
  | [] => []
  | (name, s) :: ss => (name, .fields (keywords s)) :: propertyTrees ss

end

end ValueSchema

namespace SettingsSchema

open ValueSchema

/-! ## The properties of settings -/

/-- The properties of a settings file, in byte order of their names. -/
def properties : List (String × ValueSchema) := [
  ("base_url", nullableText.describe "Base URL of the API, emitted as the single server entry"),
  ("crud_prefixes", (defined "CrudPrefixes").describe
    "Mutation name prefixes recognized by REST pattern detection"),
  ("custom_plurals", nullableText.describe
    "Path to a JSON file of custom pluralization suffix rules"),
  ("detect_rest_patterns",
    { ValueSchema.describe "Consolidate CRUD-style root fields into REST resources" {} with
      types := [.boolean]
      default := some (.bool true) }),
  ("format", ((defined "OutputFormat").describe
    "Serialization format of the OpenAPI document").fallback (.text "yaml")),
  ("logging", (defined "Logging").describe "Logging configuration"),
  ("output", (text.describe "Path the OpenAPI document is written to").fallback
    (.text "openapi.yaml")),
  ("path_prefix", (text.describe
    "Prefix prepended to every generated path (e.g. `/api/v1`)").fallback (.text "")),
  ("pluralization", (defined "Pluralization").describe "Pluralization rules"),
  ("schema", nullableText.describe "Path to the GraphQL schema file to convert"),
  ("title", nullableText.describe
    "Explicit API title. When unset, the first line of the schema header is used"),
  ("version", (text.describe "The API version written into the document info").fallback
    (.text "1.0.0"))]

/-! ## Definitions -/

def prefixes : ValueSchema :=
  (record [
    ("create", text.fallback (.text "create")),
    ("delete", text.fallback (.text "delete")),
    ("update", text.fallback (.text "update"))]).describe
      ("Mutation prefixes for create, update and delete operations.\n\n" ++
        "An empty prefix disables detection of that operation.")

def rotation : ValueSchema :=
  (oneOf ["minutely", "hourly", "daily", "never"]).describe "How often the log file is rolled over"

def logging : ValueSchema :=
  (record [
    ("level", (oneOf ["trace", "debug", "info", "warn", "error"]).describe
      "The log level to use for tracing"),
    ("path", nullableText.describe
      "Directory to write log files into. Logs go to stderr when unset"),
    ("rotation", (defined "LogRotation").describe
      "Log file rotation period to use when a log path is provided")]).describe
        "Logging related options"

def outputFormat : ValueSchema :=
  (oneOf ["yaml", "json"]).describe "The serialization format of the rendered document"

def inflection : ValueSchema :=
  (record [
    ("custom",
      { types := [.record]
        description := some
          "Suffix replacements checked before any other rule (e.g. `person` -> `people`)"
        anyField := some text
        default := some (.fields []) }),
    ("default_suffix", (text.describe "Suffix appended when no other rule applies").fallback
      (.text "s")),
    ("es_suffixes",
      { types := [.list]
        description := some "Suffixes that take `es` in the plural form"
        items := some text
        default := some (.texts ["s", "x", "z", "ch", "sh"]) }),
    ("ies_suffix", (text.describe "Suffix replaced by `ies` when preceded by a consonant").fallback
      (.text "y"))]).describe
        "Rules for turning a singular resource name into its plural form and back"

/-- The types that the schema defines, in byte order of their names. -/
def definitions : List (String × ValueSchema) := [
  ("CrudPrefixes", prefixes),
  ("LogRotation", rotation),
  ("Logging", logging),
  ("OutputFormat", outputFormat),
  ("Pluralization", inflection)]

/-! ## The document -/

def settings : ValueSchema :=
  (record properties).describe "Configuration for a conversion run"

def tree : Tree :=
  .fields (
    Tree.field "$schema" (.text "https://json-schema.org/draft/2020-12/schema") ++
    Tree.field "title" (.text "Config") ++
    settings.keywords ++
    Tree.field "$defs" (.fields (propertyTrees definitions)))

def text : String := Json.prettyText tree

end SettingsSchema

/-! ## Values that keep to a schema

What the keywords demand of a value: its type, its words, its items and its fields. A definition that a
schema refers to demands what it says on top of that. -/

/-- Whether a value is of a type. -/
def Datum.isOf : Datum → ValueType → Bool
  | .null, .null => true
  | .bool _, .boolean => true
  | .char _, .string => true
  | .text _, .string => true
  | .list _, .list => true
  | .fields _, .record => true
  | _, _ => false

namespace ValueSchema

/-- A value keeps to a schema under some definitions. -/
inductive Accepts (definitions : List (String × ValueSchema)) : ValueSchema → Datum → Prop
  | intro {s : ValueSchema} {d : Datum}
      (defined : ∀ name, s.definition = some name → ∃ s', definitions.lookup name = some s')
      (definition : ∀ name s', s.definition = some name → definitions.lookup name = some s' →
        Accepts definitions s' d)
      (type : s.types = [] ∨ ∃ t ∈ s.types, d.isOf t)
      (word : s.words = [] ∨ ∃ w ∈ s.words, d = .text w)
      (item : ∀ s' ds, s.items = some s' → d = .list ds → ∀ x ∈ ds, Accepts definitions s' x)
      (property : ∀ es name v s', d = .fields es → (name, v) ∈ es →
        s.properties.lookup name = some s' → Accepts definitions s' v)
      (other : ∀ es name v s', d = .fields es → (name, v) ∈ es →
        s.properties.lookup name = none → s.anyField = some s' → Accepts definitions s' v) :
      Accepts definitions s d

end ValueSchema

/-- A value keeps to the schema of settings. -/
def SettingsSchema.Accepts (d : Datum) : Prop := settings.Accepts definitions d

end GraphRest
