import GraphRest.Data.SortedMap
import GraphRest.Settings.Layers

/-!
# Files and the log

What a command asks of the files around it and of its log, and a working folder held in memory that answers
it.
-/

namespace GraphRest.Command

/-- Why a file cannot be read or written. -/
inductive FileFault where
  | missing
  | isFolder
  | notFolder
  | notText
  | other (message : String)
  deriving DecidableEq

def FileFault.message : FileFault → String
  | missing => "No such file or directory (os error 2)"
  | isFolder => "Is a directory (os error 21)"
  | notFolder => "Not a directory (os error 20)"
  | notText => "stream did not contain valid UTF-8"
  | other message => message

/-- What a command asks of the files around it. -/
structure Host (m : Type → Type) where
  /-- Looks for a settings file, in the working folder and those above it. -/
  findSettings : String → m (Option SettingsFile)
  readText : String → m (Except FileFault String)
  writeText : String → String → m (Except FileFault Unit)
  /-- Makes a folder with those around it; says whether it is there then. -/
  makeFolder : String → m Bool

/-- Where the lines of a log go. -/
inductive LogTarget where
  | standardError
  | files
  deriving DecidableEq

/-- What a command asks of its log. Which events are admitted is settled by the level and by what the environment
says besides; when their lines are written, and how they read, is up to the log. -/
structure Logger (m : Type → Type) where
  /-- Begins log files in a folder, a new one as often as the rotation says; says whether it could. -/
  openFiles : String → Rotation → m Bool
  /-- Takes events from now on, under a level. -/
  start : LogTarget → LogLevel → m Unit
  tell : LogEvent → m Unit
  /-- Says a line on the standard error, beside the log. -/
  say : String → m Unit
  /-- Ends the log. What has been held back is written then. -/
  close : m Unit

/-! ## Paths -/

/-- The parts of a path between its slashes. -/
def pathParts : List Char → List (List Char)
  | [] => [[]]
  | '/' :: s => [] :: pathParts s
  | c :: s =>
      match pathParts s with
      | part :: parts => (c :: part) :: parts
      | [] => [[c]]

/-- The steps along a path. A slash at its end asks for a folder. -/
def pathSteps (path : String) : List String :=
  let parts := (pathParts path.toList).map String.ofList
  parts.filter (· ≠ "") ++ if parts.length ≠ 1 ∧ parts.getLast? = some "" then ["."] else []

/-- The last part of a path that is a name; a path that leads upwards at its end has none. -/
def fileName? (path : String) : Option String :=
  match ((pathSteps path).filter (· ≠ ".")).getLast? with
  | some ".." => none
  | name => name

/-- A path without the parts that lead nowhere. -/
def plainPath (path : String) : String :=
  let steps := String.intercalate "/" ((pathSteps path).filter (· ≠ "."))
  if path.toList.head? = some '/' then "/" ++ steps else steps

/-- The path of a name in a folder. -/
def inFolder (folder name : String) : String :=
  if folder.isEmpty then name else folder ++ "/" ++ name

/-! ## A folder in memory -/

/-- A working folder: its files by their paths, and the folders in it. A folder that a file lies in need
not be named. A file that was written outside of the working folder has a path that leads out of it. -/
structure Folder where
  files : SortedMap String := .empty
  folders : List String := []

namespace Folder

/-- A place that a path leads to. -/
inductive Place where
  | folder (steps : List String)
  | file (steps : List String)
  | absent (steps : List String)
  /-- Outside the working folder, behind the root or the folders above; the names from there on, the last
  one first. -/
  | outside (absolute : Bool) (names : List String)
  | fault (f : FileFault)
  deriving DecidableEq

/-- The path that steps from the working folder make. -/
def pathOf (steps : List String) : String := String.intercalate "/" steps

/-- The path of a file outside the working folder. -/
def outerPath (absolute : Bool) (names : List String) : String :=
  (if absolute then "/" else "../") ++ pathOf names.reverse

/-- The path of the file that is or would be at a place. Outside the working folder there are only folders
without names. -/
def Place.filePath : Place → Except FileFault String
  | .file steps => .ok (pathOf steps)
  | .absent steps => .ok (pathOf steps)
  | .folder _ => .error .isFolder
  | .outside absolute names =>
      if names.isEmpty then .error .isFolder else .ok (outerPath absolute names)
  | .fault f => .error f

/-- Whether a path is that of a folder: it is named, or something lies in it. -/
def isFolder (f : Folder) (path : String) : Bool :=
  path.isEmpty || f.folders.contains path ||
    (f.files.keys ++ f.folders).any fun p => Text.beginsWith p (path ++ "/")

/-- The place of steps from the working folder. -/
def placeOf (f : Folder) (steps : List String) : Place :=
  if (f.files.get? (pathOf steps)).isSome then .file steps
  else if f.isFolder (pathOf steps) then .folder steps
  else .absent steps

def step (f : Folder) (p : Place) (s : String) : Place :=
  match p with
  | .folder steps =>
      if s = "." then p
      else if s = ".." then
        (if steps.isEmpty then .outside false [] else .folder steps.dropLast)
      else f.placeOf (steps ++ [s])
  | .file _ => .fault .notFolder
  | .absent _ => .fault .missing
  | .outside absolute names =>
      if s = "." then p
      else if s = ".." then .outside absolute names.tail
      else .outside absolute (s :: names)
  | .fault _ => p

def isAbsolute (path : String) : Bool := path.toList.head? = some '/'

/-- Where a path begins. -/
def start (path : String) : Place := if isAbsolute path then .outside true [] else .folder []

/-- The place that a path leads to. -/
def resolve (f : Folder) (path : String) : Place :=
  if path.isEmpty then .fault .missing else (pathSteps path).foldl f.step (start path)

def read (f : Folder) (path : String) : Except FileFault String := do
  match f.files.get? (← (f.resolve path).filePath) with
  | some text => .ok text
  | none => .error .missing

/-- The place that writing to a path leads to: a path with a slash at its end cannot be that of a
file. -/
def target (f : Folder) (path : String) : Place :=
  if path.toList.getLast? = some '/' then
    match f.resolve (plainPath path) with
    | .fault fault => .fault fault
    | _ => .fault .isFolder
  else f.resolve path

/-- The folder with a text in a file. -/
def put (f : Folder) (path text : String) : Folder := { f with files := f.files.insert path text }

/-- Writes a file. Behind the root there is no folder to make one in. -/
def write (f : Folder) (path text : String) : Except FileFault Folder := do
  let filePath ← (f.target path).filePath
  if isAbsolute path && (f.files.get? filePath).isNone then .error .missing
  else .ok (f.put filePath text)

/-- Writes behind the end of a file. -/
def append (f : Folder) (path text : String) : Except FileFault Folder := do
  let filePath ← (f.target path).filePath
  .ok (f.put filePath ((f.files.get? filePath).getD "" ++ text))

/-- Goes a step from a place and makes a folder there if nothing is. -/
def makeStep (s : Folder × Place) (part : String) : Folder × Place :=
  match s.1.step s.2 part with
  | .absent steps => ({ s.1 with folders := pathOf steps :: s.1.folders }, .folder steps)
  | p => (s.1, p)

/-- Makes a folder with those around it. -/
def make (f : Folder) (path : String) : Option Folder :=
  match (pathSteps path).foldl makeStep (f, start path) with
  | (f, .folder _) => some f
  | (f, .outside _ _) => some f
  | _ => none

/-- Whether the path of a file leads out of the working folder. -/
def leadsOut (path : String) : Bool := isAbsolute path || Text.beginsWith path "../"

/-- The files in a folder that are new or changed since an earlier state of it. -/
def changesSince (before after : Folder) : List (String × String) :=
  after.files.entries.filter fun (path, text) =>
    !leadsOut path && before.files.get? path ≠ some text

end Folder

/-- A working folder in memory as a host. -/
def Folder.host : Host (StateM Folder) where
  findSettings path := do
    match (← get).read path with
    | .ok text => return some { name := plainPath path, text }
    | .error _ => return none
  readText path := return (← get).read path
  writeText path text := do
    match (← get).write path text with
    | .ok f => set f; return .ok ()
    | .error fault => return .error fault
  makeFolder path := do
    match (← get).make path with
    | some f => set f; return true
    | none => return false

/-! ## A log in memory -/

/-- A working folder with a log: the file that has been opened for it, what it takes, and the lines on the standard
error. -/
structure Workspace where
  folder : Folder
  logFile : Option String := none
  log : Option (LogTarget × LogLevel) := none
  said : List String := []

namespace Workspace

variable {α : Type}

/-- Does something in the working folder. -/
def inFolder (x : StateM Folder α) : StateM Workspace α := fun w =>
  let (a, folder) := x.run w.folder
  (a, { w with folder })

def host : Host (StateM Workspace) where
  findSettings path := inFolder (Folder.host.findSettings path)
  readText path := inFolder (Folder.host.readText path)
  writeText path text := inFolder (Folder.host.writeText path text)
  makeFolder path := inFolder (Folder.host.makeFolder path)

/-- Opens the log file of a point in time. -/
def openFile (w : Workspace) (path : String) : Option Workspace :=
  match w.folder.append path "" with
  | .ok folder => some { w with folder, logFile := some path }
  | .error _ => none

def say (w : Workspace) (line : String) : Workspace := { w with said := w.said ++ [line] }

/-- Writes a line into the log file. -/
def write (w : Workspace) (line : String) : Workspace :=
  match w.logFile.map (w.folder.append · (line ++ "\n")) with
  | some (.ok folder) => { w with folder }
  | _ => w

def tell (w : Workspace) (e : LogEvent) : Workspace :=
  match w.log with
  | some (target, level) =>
      if level.admits e.level then
        match target with
        | .standardError => w.say e.line
        | .files => w.write e.line
      else w
  | none => w

/-- A log that writes at once what its level admits, all of it at one point in time, which its lines do not
tell. -/
def logger (moment : Moment) : Logger (StateM Workspace) where
  openFiles folder rotation := do
    match (← get).openFile (Command.inFolder folder (logFileName rotation moment)) with
    | some w => set w; return true
    | none => return false
  start target level := modify fun w => { w with log := some (target, level) }
  tell e := modify (·.tell e)
  say line := modify (·.say line)
  close := return

end Workspace

end GraphRest.Command
