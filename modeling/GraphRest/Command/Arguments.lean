import GraphRest.Command.Flag
import GraphRest.Settings.Layers

/-!
# Arguments of the converter

The flags of the converter. A flag that is given wins over all other settings.
-/

namespace GraphRest.Command

/-- What the flags of a command line say. -/
structure Arguments where
  config : Option String := none
  schema : Option String := none
  output : Option String := none
  format : Option OutputFormat := none
  title : Option String := none
  version : Option String := none
  baseUrl : Option String := none
  pathPrefix : Option String := none
  detectResources : Option Bool := none
  customPlurals : Option String := none
  esSuffixes : Option (List String) := none
  iesSuffix : Option String := none
  defaultSuffix : Option String := none
  createPrefix : Option String := none
  updatePrefix : Option String := none
  deletePrefix : Option String := none
  level : Option LogLevel := none
  deriving DecidableEq

namespace Arguments

def cutAtCommas : List Char → List (List Char)
  | [] => [[]]
  | ',' :: s => [] :: cutAtCommas s
  | c :: s =>
      match cutAtCommas s with
      | part :: parts => (c :: part) :: parts
      | [] => [[c]]

/-- Adds the endings in a text to those given so far. -/
def addSuffixes (text : String) (a : Arguments) : Except Stop Arguments :=
  .ok { a with
    esSuffixes := some (a.esSuffixes.getD [] ++ (cutAtCommas text.toList).map String.ofList) }

def flags : List (Flag Arguments) := [
  { name := "config"
    placeholder := "CONFIG"
    about := "Path to a YAML config file"
    set := Flag.once config Flag.fileName fun v a => { a with config := some v } },
  { name := "schema"
    letter := some 's'
    placeholder := "SCHEMA"
    about := "The GraphQL schema file to convert"
    set := Flag.once schema Flag.fileName fun v a => { a with schema := some v } },
  { name := "output"
    letter := some 'o'
    placeholder := "OUTPUT"
    about := "The OpenAPI file to write"
    fallback := some "openapi.yaml"
    set := Flag.once output Flag.fileName fun v a => { a with output := some v } },
  { name := "format"
    letter := some 'f'
    placeholder := "FORMAT"
    about := "Output format: yaml or json"
    fallback := some "yaml"
    set := Flag.once format (Flag.looked OutputFormat.ofWord?) fun v a =>
      { a with format := some v } },
  { name := "title"
    placeholder := "TITLE"
    about := "API title"
    fallback := some "the first line of the schema description, or \"Converted from GraphQL\""
    set := Flag.once title Flag.anyText fun v a => { a with title := some v } },
  { name := "version"
    placeholder := "VERSION"
    about := "API version"
    fallback := some "1.0.0"
    set := Flag.once version Flag.anyText fun v a => { a with version := some v } },
  { name := "base-url"
    placeholder := "BASE_URL"
    about := "Base URL for the API"
    set := Flag.once baseUrl Flag.anyText fun v a => { a with baseUrl := some v } },
  { name := "path-prefix"
    placeholder := "PATH_PREFIX"
    about := "Path prefix for all endpoints (e.g. \"/api/v1\")"
    set := Flag.once pathPrefix Flag.anyText fun v a => { a with pathPrefix := some v } },
  { name := "detect-rest-patterns"
    placeholder := "BOOL"
    about := "Enable REST pattern detection"
    fallback := some "true"
    choices := ["true", "false"]
    set := Flag.once detectResources Flag.truth fun v a => { a with detectResources := some v } },
  { name := "pluralize-suffixes"
    placeholder := "CUSTOM_PLURALS"
    about := "Custom pluralization suffix rules as a JSON file"
    set := Flag.once customPlurals Flag.fileName fun v a => { a with customPlurals := some v } },
  { name := "pluralize-es-suffixes"
    placeholder := "PLURALIZE_ES_SUFFIXES"
    about := "Comma-separated suffixes that get \"es\" added"
    fallback := some "s,x,z,ch,sh"
    set := addSuffixes },
  { name := "pluralize-ies-suffix"
    placeholder := "PLURALIZE_IES_SUFFIX"
    about := "Suffix that triggers \"ies\" conversion"
    fallback := some "y"
    set := Flag.once iesSuffix Flag.anyText fun v a => { a with iesSuffix := some v } },
  { name := "pluralize-default-suffix"
    placeholder := "PLURALIZE_DEFAULT_SUFFIX"
    about := "Default suffix to add for pluralization"
    fallback := some "s"
    set := Flag.once defaultSuffix Flag.anyText fun v a => { a with defaultSuffix := some v } },
  { name := "crud-prefix-create"
    placeholder := "CRUD_PREFIX_CREATE"
    about := "Prefix for create operations in REST pattern detection"
    fallback := some "create"
    set := Flag.once createPrefix Flag.anyText fun v a => { a with createPrefix := some v } },
  { name := "crud-prefix-update"
    placeholder := "CRUD_PREFIX_UPDATE"
    about := "Prefix for update operations in REST pattern detection"
    fallback := some "update"
    set := Flag.once updatePrefix Flag.anyText fun v a => { a with updatePrefix := some v } },
  { name := "crud-prefix-delete"
    placeholder := "CRUD_PREFIX_DELETE"
    about := "Prefix for delete operations in REST pattern detection"
    fallback := some "delete"
    set := Flag.once deletePrefix Flag.anyText fun v a => { a with deletePrefix := some v } },
  { name := "log"
    letter := some 'l'
    placeholder := "LOG_LEVEL"
    about := "The log level"
    fallback := some "info"
    set := Flag.once level (Flag.looked LogLevel.ofText?) fun v a => { a with level := some v } }]

/-- Reads the arguments of a command line. -/
def ofLine : List String → Except Stop Arguments := readLine flags {}

def help : Help Arguments where
  about := "GraphQL to OpenAPI - convert a GraphQL schema into an OpenAPI 3.0 document"
  name := "graphql-to-openapi"
  flags := flags

/-- The endings that are meant by the values of a flag: without blanks around them, and no empty
ones. -/
def meantSuffixes (values : List String) : List String :=
  (values.map Text.trim).filter fun s => !s.isEmpty

/-- Inflection rules with what the flags say in place of what was there. -/
def applyToInflection (a : Arguments) (r : InflectionRules) : InflectionRules :=
  { r with
    esSuffixes := (a.esSuffixes.map meantSuffixes).getD r.esSuffixes
    iesSuffix := a.iesSuffix.getD r.iesSuffix
    defaultSuffix := a.defaultSuffix.getD r.defaultSuffix }

/-- Mutation prefixes with what the flags say in place of what was there. -/
def applyToPrefixes (a : Arguments) (p : MutationPrefixes) : MutationPrefixes :=
  { create := a.createPrefix.getD p.create
    update := a.updatePrefix.getD p.update
    delete := a.deletePrefix.getD p.delete }

/-- Options with what the flags say in place of what was there. -/
def applyToOptions (a : Arguments) (o : Options) : Options :=
  { title := a.title.or o.title
    version := a.version.getD o.version
    baseUrl := a.baseUrl.or o.baseUrl
    pathPrefix := a.pathPrefix.getD o.pathPrefix
    detectResources := a.detectResources.getD o.detectResources
    inflection := a.applyToInflection o.inflection
    mutationPrefixes := a.applyToPrefixes o.mutationPrefixes }

/-- Settings with what the flags say in place of what was there. -/
def applyTo (a : Arguments) (s : Settings) : Settings :=
  { schema := a.schema.or s.schema
    output := a.output.getD s.output
    format := a.format.getD s.format
    customPlurals := a.customPlurals.or s.customPlurals
    logging := { s.logging with level := a.level.getD s.logging.level }
    options := a.applyToOptions s.options }

/-- The settings of a run: those of its sources, with what the flags say in place of what was there. -/
def settings (a : Arguments) (sources : SettingSources) : Except Refusal Settings :=
  sources.load.map a.applyTo

end Arguments

end GraphRest.Command
