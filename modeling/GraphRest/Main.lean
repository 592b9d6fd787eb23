import GraphRest.Command.Run
import Std.Time

/-!
# The command line

The converter on the files and the environment of its process. With `config-schema` as its first word
the program prints the schema of settings files instead.
-/

namespace GraphRest.Command

/-- Whether a code of the system is a given one, which is also written with a minus sign. -/
def isCode (code given : UInt32) : Bool := code = given || code = 0 - given

/-- A failure of the file system as a fault. -/
def FileFault.ofError : IO.Error → FileFault
  | .noFileOrDirectory .. => missing
  | .inappropriateType _ code message =>
      if isCode code 20 then notFolder else if isCode code 21 then isFolder else other message
  | .userError _ => notText
  | e => other (toString e)

/-- Does something with a file; what goes wrong becomes a fault. -/
def guarded {α : Type} (action : IO α) : IO (Except FileFault α) := do
  try return .ok (← action)
  catch e => return .error (.ofError e)

/-- Whether something with a file goes well. -/
def succeeds (action : IO Unit) : IO Bool := do
  try action; return true
  catch _ => return false

/-- The path of a file seen from some folders further up. -/
def fromAbove (levels : Nat) (path : String) : String :=
  String.join (List.replicate levels "../") ++ path

/-- Looks for a settings file in the working folder and then, folder by folder, further up. -/
def findAbove (path : String) : (tries levels : Nat) → IO (Option SettingsFile)
  | 0, _ => return none
  | tries + 1, levels => do
      match ← guarded (IO.FS.readFile (fromAbove levels path)) with
      | .ok text => return some { name := plainPath (fromAbove levels path), text }
      | .error _ => findAbove path tries (levels + 1)

def processHost : Host IO where
  findSettings path := do
    let above := (pathSteps (toString (← IO.currentDir))).length
    findAbove path (if path.toList.head? = some '/' then 1 else above + 1) 0
  readText path := guarded (IO.FS.readFile path)
  writeText path text := guarded (IO.FS.writeFile path text)
  makeFolder path := if path.isEmpty then return true else succeeds (IO.FS.createDirAll path)

def appendText (path text : String) : IO Bool := succeeds do
  let handle ← IO.FS.Handle.mk path .append
  handle.putStr text

/-- A variable as the system writes it: its name, an equals sign and its value. -/
def variableOf (entry : List Char) : Option (String × String) :=
  match entry.span (· ≠ '=') with
  | (name, _ :: value) => some (String.ofList name, String.ofList value)
  | (_, []) => none

/-- Cuts a text at its zero characters. -/
def cutAtZeros : List Char → List (List Char)
  | [] => [[]]
  | '\x00' :: s => [] :: cutAtZeros s
  | c :: s =>
      match cutAtZeros s with
      | part :: parts => (c :: part) :: parts
      | [] => [[c]]

def processVariables : IO (List (String × String)) := do
  match ← guarded (IO.FS.readFile "/proc/self/environ") with
  | .ok text => return (cutAtZeros text.toList).filterMap variableOf
  | .error _ => return []

/-- The time now, in the time zone of Greenwich. -/
def processTime : IO Std.Time.DateTime := do
  return .ofTimestamp (← Std.Time.Timestamp.now) Std.Time.TimeZone.ZoneRules.UTC

def momentOf (now : Std.Time.DateTime) : Moment where
  year := now.year.toInt.toNat
  month := now.month.toNat
  day := now.day.toNat
  hour := now.hour.toNat
  minute := now.minute.toNat

/-- The log of the process: the folder of its files and how often it begins one, and what it takes. -/
structure ProcessLog where
  files : Option (String × Rotation) := none
  taken : Option (LogTarget × LogLevel) := none

/-- The log file of now. -/
def logPath (files : String × Rotation) : IO String := do
  return inFolder files.1 (logFileName files.2 (momentOf (← processTime)))

def writeLog (log : ProcessLog) (target : LogTarget) (line : String) : IO Unit := do
  match target, log.files with
  | .files, some files =>
      let _ ← appendText (← logPath files) (line ++ "\n")
  | _, _ => (← IO.getStderr).putStrLn line

/-- The log that is written at once and admits what its level does. -/
def processLogger (log : IO.Ref ProcessLog) : Logger IO where
  openFiles folder rotation := do
    let opened ← appendText (← logPath (folder, rotation)) ""
    if opened then log.modify fun l => { l with files := some (folder, rotation) }
    return opened
  start target level := log.modify fun l => { l with taken := some (target, level) }
  tell e := do
    let l ← log.get
    match l.taken with
    | some (target, level) =>
        if level.admits e.level then writeLog l target ((← processTime).toISO8601String ++ " " ++ e.line)
    | none => return
  say line := do (← IO.getStderr).putStrLn line
  close := return

def Outcome.show (o : Outcome) : IO UInt32 := do
  (← IO.getStdout).putStr o.stdout
  for line in o.stderr do (← IO.getStderr).putStrLn line
  return o.exit.toUInt32

end GraphRest.Command

open GraphRest.Command in
/-- Runs the converter, or prints the schema of settings files if the first word asks for that. -/
def main (words : List String) : IO UInt32 := do
  match words with
  | "config-schema" :: words => (← PrintSchema.run processHost words).show
  | _ =>
      let environment ← processVariables
      let log ← IO.mkRef {}
      (← run processHost (processLogger log) { words, environment }).show
