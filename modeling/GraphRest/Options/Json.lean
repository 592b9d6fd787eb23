import GraphRest.Json.Decode
import GraphRest.Json.Reader
import GraphRest.Options.Basic
import GraphRest.Tree

/-!
# Options in JSON

Options and suffix tables decoded from JSON, and options as a data tree. What is left out keeps its
default.
-/

namespace GraphRest

open Json Json.Decoder

/-- A table of suffixes; the last of several entries with one key remains. -/
def suffixTable : Decoder (SortedMap String) := fun n => (entries string n).map .ofList

namespace InflectionRules

def jsonFields : List (RecordField InflectionRules) := [
  .of "custom" suffixTable fun v r => { r with custom := v },
  .of "es_suffixes" (list string) fun v r => { r with esSuffixes := v },
  .of "ies_suffix" string fun v r => { r with iesSuffix := v },
  .of "default_suffix" string fun v r => { r with defaultSuffix := v }]

def ofJson : Decoder InflectionRules := record "struct Pluralization" jsonFields {}

def tree (r : InflectionRules) : Tree :=
  .fields [
    ("custom", .fields (r.custom.entries.map fun (k, v) => (k, .text v))),
    ("es_suffixes", .texts r.esSuffixes),
    ("ies_suffix", .text r.iesSuffix),
    ("default_suffix", .text r.defaultSuffix)]

end InflectionRules

namespace MutationPrefixes

def jsonFields : List (RecordField MutationPrefixes) := [
  .of "create" string fun v p => { p with create := v },
  .of "update" string fun v p => { p with update := v },
  .of "delete" string fun v p => { p with delete := v }]

def ofJson : Decoder MutationPrefixes := record "struct CrudPrefixes" jsonFields {}

def tree (p : MutationPrefixes) : Tree :=
  .fields [("create", .text p.create), ("update", .text p.update), ("delete", .text p.delete)]

end MutationPrefixes

namespace Options

def jsonFields : List (RecordField Options) := [
  .of "title" (optional string) fun v o => { o with title := v },
  .of "version" string fun v o => { o with version := v },
  .of "base_url" (optional string) fun v o => { o with baseUrl := v },
  .of "path_prefix" string fun v o => { o with pathPrefix := v },
  .of "detect_rest_patterns" bool fun v o => { o with detectResources := v },
  .of "pluralization" InflectionRules.ofJson fun v o => { o with inflection := v },
  .of "crud_prefixes" MutationPrefixes.ofJson fun v o => { o with mutationPrefixes := v }]

def ofJson : Decoder Options := record "struct ConverterConfig" jsonFields {}

/-- An optional text as a data tree. -/
def textOrNull : Option String → Tree
  | some s => .text s
  | none => .null

/-- Options as a data tree with every field. -/
def tree (o : Options) : Tree :=
  .fields [
    ("title", textOrNull o.title),
    ("version", .text o.version),
    ("base_url", textOrNull o.baseUrl),
    ("path_prefix", .text o.pathPrefix),
    ("detect_rest_patterns", .bool o.detectResources),
    ("pluralization", o.inflection.tree),
    ("crud_prefixes", o.mutationPrefixes.tree)]

end Options

/-- Decodes a text as a whole: nothing may follow the value. -/
def Json.decodeText {α : Type} (decode : Decoder α) (text : String) : Except Misfit α := do
  let reading := read text
  let a ← decode reading.value
  match reading.trailing with
  | some failure => throw (.broken failure)
  | none => return a

def Options.ofJsonText : String → Except Misfit Options := decodeText Options.ofJson

/-- Reads a table of suffixes from JSON text. -/
def suffixTableOfText : String → Except Misfit (SortedMap String) := decodeText suffixTable

/-- What is said on a table of suffixes that cannot be read. -/
def suffixTableMessage (m : Misfit) : String :=
  "invalid custom pluralization table: " ++ m.message

end GraphRest
