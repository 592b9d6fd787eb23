import GraphRest.Command.Arguments
import GraphRest.Command.Host
import GraphRest.Conversion.Events
import GraphRest.Settings.Schema

/-!
# Runs

A run of the converter, from a command line to the written document, and a run of the command that prints
the schema of settings files. The converter stops at the first thing that goes wrong, and once the document
is written it has nothing left to do but to tell its log.
-/

namespace GraphRest.Command

/-- What a run is started with. -/
structure Invocation where
  words : List String
  environment : List (String × String) := []

/-- What a run ends with: its exit code, and what it writes to the standard output and, line by line, to the
standard error. -/
structure Outcome where
  exit : Nat
  stdout : String := ""
  stderr : List String := []
  deriving DecidableEq

/-- An error that ends a run, perhaps with its cause. -/
structure RunError where
  message : String
  cause : Option String := none
  deriving DecidableEq

def RunError.lines (e : RunError) : List String :=
  ("Error: " ++ e.message) :: match e.cause with
    | some cause => ["", "Caused by:", "    " ++ cause]
    | none => []

/-! ## Errors -/

def RunError.noSchema : RunError :=
  { message := "No GraphQL schema file was supplied (use --schema)" }

/-- The table of suffixes cannot be opened. -/
def RunError.tableUnread (f : FileFault) : RunError :=
  { message := "Could not open file: " ++ f.message, cause := some f.message }

def RunError.tableUnfit (m : Json.Misfit) : RunError := { message := suffixTableMessage m }

def RunError.schemaUnread (path : String) (f : FileFault) : RunError :=
  { message := "Failed to read schema file " ++ path, cause := some f.message }

def RunError.schemaUnfit : RunError := { message := "Could not parse GraphQL schema:" }

def RunError.outputUnwritten (path : String) (f : FileFault) : RunError :=
  { message := "Failed to write output file " ++ path, cause := some f.message }

/-! ## Events -/

def version : String := "0.3.0"

def banner : LogEvent :=
  { level := .info, message := "GraphQL to OpenAPI v" ++ version ++ " // Licensed under MIT" }

def tableEvent (path : String) : LogEvent :=
  { level := .debug, message := "Loading custom pluralization table"
    fields := [("custom_plurals", Text.quoted path)] }

def schemaEvent (path source : String) : LogEvent :=
  { level := .debug, message := "Read schema"
    fields := [("schema", path), ("bytes", toString source.utf8ByteSize)] }

def patternEvent (p : ResourcePattern) : LogEvent :=
  { level := .info, message := "Detected REST pattern " ++ p.display }

def finishedEvent (schema output : String) : LogEvent :=
  { level := .info
    message := "Successfully converted " ++ (fileName? schema).getD schema ++ " to " ++ output }

/-! ## Logging -/

variable {m : Type → Type} [Monad m]

/-- Sends the log to the standard error, which says first why. -/
def logToError (logger : Logger m) (level : LogLevel) (reason : String) : m Unit := do
  logger.say (reason ++ " - falling back to stderr")
  logger.start .standardError level

/-- Opens the log. If it cannot be kept in files it goes to the standard error. -/
def openLog (host : Host m) (logger : Logger m) (logging : Logging) : m Unit :=
  match logging.path with
  | none => logger.start .standardError logging.level
  | some folder => do
      if ← host.makeFolder folder then
        if ← logger.openFiles folder logging.rotation then logger.start .files logging.level
        else logToError logger logging.level "Log file setup failed"
      else logToError logger logging.level "Could not build log path"

def Logger.tellAll (logger : Logger m) : List LogEvent → m Unit
  | [] => return
  | e :: es => do
      logger.tell e
      logger.tellAll es

/-! ## The conversion of files -/

/-- Options with a table of suffixes laid over the custom ones. -/
def withTable (o : Options) (table : SortedMap String) : Options :=
  { o with inflection := { o.inflection with custom := o.inflection.custom.override table } }

/-- The options with the table of suffixes that the settings name. -/
def loadTable (host : Host m) (s : Settings) : m (Except RunError Options) :=
  match s.customPlurals with
  | none => return .ok s.options
  | some path => do
      match ← host.readText path with
      | .error f => return .error (.tableUnread f)
      | .ok text =>
          match suffixTableOfText text with
          | .error misfit => return .error (.tableUnfit misfit)
          | .ok table => return .ok (withTable s.options table)

def writeDocument (host : Host m) (logger : Logger m) (s : Settings) (schema : String) (c : Conversion) :
    m (Except RunError Unit) := do
  match ← host.writeText s.output (c.document.render s.format) with
  | .error f => return .error (.outputUnwritten s.output f)
  | .ok () => do
      logger.tell (finishedEvent schema s.output)
      return .ok ()

def convertSource (host : Host m) (logger : Logger m) (s : Settings) (options : Options)
    (schema source : String) : m (Except RunError Unit) := do
  match convert? options source with
  | none => return .error .schemaUnfit
  | some c => do
      logger.tellAll (conversionEvents options source ++ c.patterns.map patternEvent)
      writeDocument host logger s schema c

def convertSchema (host : Host m) (logger : Logger m) (s : Settings) (options : Options) (schema : String) :
    m (Except RunError Unit) := do
  match ← host.readText schema with
  | .error f => return .error (.schemaUnread schema f)
  | .ok source => do
      logger.tell (schemaEvent schema source)
      convertSource host logger s options schema source

/-- Converts the files that the settings name. -/
def convertFiles (host : Host m) (logger : Logger m) (s : Settings) : m (Except RunError Unit) := do
  match s.schema with
  | none => return .error .noSchema
  | some schema => do
      logger.tellAll (s.customPlurals.map tableEvent).toList
      match ← loadTable host s with
      | .error e => return .error e
      | .ok options => convertSchema host logger s options schema

/-! ## The run -/

/-- What a stopped reading of the command line leaves behind. -/
def stopOutcome {σ : Type} (help : Help σ) (usage : Help σ → Bool → String) : Stop → Outcome
  | .help long => { exit := 0, stdout := usage help long }
  | stop => { exit := 2, stderr := ["error: " ++ stop.message] }

/-- The help of the converter, long or short. -/
def helpText (h : Help Arguments) (long : Bool) : String := if long then h.full else h.brief

/-- The file of settings that the arguments name. -/
def settingsFile (host : Host m) (a : Arguments) : m (Option SettingsFile) :=
  match a.config with
  | some path => host.findSettings path
  | none => return none

/-- What the end of a conversion leaves behind. -/
def endOutcome : Except RunError Unit → Outcome
  | .ok () => { exit := 0 }
  | .error e => { exit := 1, stderr := e.lines }

def runWith (host : Host m) (logger : Logger m) (s : Settings) : m Outcome := do
  openLog host logger s.logging
  logger.tell banner
  let result ← convertFiles host logger s
  logger.close
  return endOutcome result

def run (host : Host m) (logger : Logger m) (i : Invocation) : m Outcome :=
  match Arguments.ofLine i.words with
  | .error stop => return stopOutcome Arguments.help helpText stop
  | .ok arguments => do
      let sources : SettingSources :=
        { environment := i.environment, file := ← settingsFile host arguments }
      match arguments.settings sources with
      | .error refusal =>
          return endOutcome (.error { message := sources.report refusal })
      | .ok settings => runWith host logger settings

/-! ## Printing the schema of settings files

A command of its own that writes the schema of settings files to the standard output or into a file. -/

namespace PrintSchema

/-- What the flags of a command line say. -/
structure Arguments where
  output : Option String := none
  deriving DecidableEq

def flags : List (Flag Arguments) := [
  { name := "output"
    letter := some 'o'
    placeholder := "OUTPUT"
    about := "Write the schema to this file instead of stdout"
    set := Flag.once Arguments.output Flag.fileName fun v a => { a with output := some v } }]

def help : Help Arguments where
  about := "Print the JSON Schema of the config file accepted by `graphql-to-openapi --config`"
  name := "config-schema"
  flags := flags

/-- The help of the command, which is the same in both forms. -/
def helpText (h : Help Arguments) (_long : Bool) : String := h.beside

/-- The schema with a line break at its end. -/
def content : String := SettingsSchema.text ++ "\n"

def unwritten (path : String) (f : FileFault) : RunError :=
  { message := "Failed to write config schema to " ++ path, cause := some f.message }

def run {m : Type → Type} [Monad m] (host : Host m) (words : List String) : m Outcome :=
  match readLine flags {} words with
  | .error stop => return stopOutcome help helpText stop
  | .ok { output := none } => return { exit := 0, stdout := content }
  | .ok { output := some path } => do
      match ← host.writeText path content with
      | .ok () => return { exit := 0 }
      | .error f => return { exit := 1, stderr := (unwritten path f).lines }

end PrintSchema

end GraphRest.Command
