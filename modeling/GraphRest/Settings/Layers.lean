import GraphRest.Settings.Decode
import GraphRest.Settings.Environment
import GraphRest.Yaml.Reader

/-!
# Layers of settings

The environment lies over the file: a setting that both give is the environment's. A refusal is told
with the layer that its value comes from.
-/

namespace GraphRest

/-- A settings file: its name as messages show it, and its text. -/
structure SettingsFile where
  name : String
  text : String

/-- Where settings come from. -/
structure SettingSources where
  environment : List (String × String) := []
  file : Option SettingsFile := none

namespace SettingSources

def upper (s : SettingSources) : Datum := Environment.settings s.environment

/-- The settings of the file; without a file there are none. -/
def lower (s : SettingSources) : Except Yaml.Failure Datum :=
  match s.file with
  | some file => Yaml.fields file.text
  | none => .ok (.fields [])

def merged (s : SettingSources) : Except Yaml.Failure Datum := s.lower.map s.upper.laidOver

def load (s : SettingSources) : Except Refusal Settings :=
  match s.merged with
  | .ok d => Settings.ofDatum d
  | .error f => .error { flaw := .unreadFile f }

/-! ## Telling a refusal -/

/-- The name of the environment as a source. -/
def environmentName : String := "`" ++ Environment.namePrefix ++ "` environment variable(s)"

def environmentKey (path : List String) : String :=
  String.intercalate "." (path.map fun part => String.ofList (part.toList.map Char.toUpper))

def fileKey (path : List String) : String := String.intercalate "." ("default" :: path)

/-- Where a refused setting was given, in words; nothing for the options, of which that is not kept. -/
def origin (s : SettingSources) (r : Refusal) : String :=
  let inFile := match s.file with
    | some file => " in " ++ file.name ++ " YAML file"
    | none => ""
  match r.flaw with
  | .unreadFile _ => inFile
  | _ =>
      if r.holder.isEmpty then ""
      else if (s.upper.at? r.holder).isSome then
        " for key " ++ Text.quoted (environmentKey r.path) ++ " in " ++ environmentName
      else if inFile.isEmpty then ""
      else " for key " ++ Text.quoted (fileKey r.path) ++ inFile

/-- A refusal with the place of its setting. -/
def report (s : SettingSources) (r : Refusal) : String := r.flaw.message ++ s.origin r

end SettingSources

end GraphRest
