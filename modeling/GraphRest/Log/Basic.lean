import GraphRest.Decimal.Double
import GraphRest.Text.Basic
import GraphRest.Text.Case

/-!
# Logging

Log lines with their levels, and how often a new log file is begun.
-/

namespace GraphRest

/-- How grave a log line is. -/
inductive LogLevel where
  | error
  | warn
  | info
  | debug
  | trace
  deriving DecidableEq

namespace LogLevel

def all : List LogLevel := [error, warn, info, debug, trace]

def word : LogLevel → String
  | error => "ERROR"
  | warn => "WARN"
  | info => "INFO"
  | debug => "DEBUG"
  | trace => "TRACE"

/-- The place of a level in the order, the gravest first. -/
def rank : LogLevel → Nat
  | error => 1
  | warn => 2
  | info => 3
  | debug => 4
  | trace => 5

/-- Whether lines of a level are logged under this one: the graver ones and those of the level
itself. -/
def admits (threshold level : LogLevel) : Bool := level.rank ≤ threshold.rank

/-- The level of a word in any case, or of its rank as a number. -/
def ofText? (text : String) : Option LogLevel :=
  match Decimal.whole? (Nat.pow 2 64) text with
  | some n => all.find? (·.rank = n)
  | none => all.find? fun l => Text.lowerAscii l.word = Text.lowerAscii text

/-- What is said on a text that names no level. -/
def unknownMessage : String :=
  "error parsing level: expected one of \"error\", \"warn\", \"info\", \"debug\", \"trace\", " ++
    "or a number 1-5"

end LogLevel

/-- A line of the log: its level, what it says, and what it says it about. -/
structure LogEvent where
  level : LogLevel
  message : String
  fields : List (String × String) := []
  deriving DecidableEq

/-- What an event says in the log, without the time. -/
def LogEvent.line (e : LogEvent) : String :=
  String.intercalate " "
    (e.level.word :: e.message :: e.fields.map fun (name, value) => name ++ "=" ++ value)

/-- How often a new log file is begun. -/
inductive Rotation where
  | minutely
  | hourly
  | daily
  | never
  deriving DecidableEq

namespace Rotation

def all : List Rotation := [minutely, hourly, daily, never]

def word : Rotation → String
  | minutely => "minutely"
  | hourly => "hourly"
  | daily => "daily"
  | never => "never"

/-- The rotation of a word in any case, with blanks around it. -/
def ofText? (text : String) : Option Rotation :=
  all.find? (·.word = Text.lowerAscii (Text.trim text))

/-- What is said on a text that names no rotation. -/
def unknownMessage (text : String) : String :=
  "unknown log rotation '" ++ text ++ "', expected minutely, hourly, daily or never"

end Rotation

/-- A point in time by its calendar fields. -/
structure Moment where
  year : Nat
  month : Nat
  day : Nat
  hour : Nat
  minute : Nat
  deriving DecidableEq

namespace Moment

/-- A number in at least so many digits. -/
def padded (width n : Nat) : String :=
  let ds := (toString n).toList
  String.ofList (List.replicate (width - ds.length) '0' ++ ds)

/-- The fields of a point in time that a rotation tells apart. -/
def stamp (m : Moment) : Rotation → Option String
  | .never => none
  | .daily => some (String.intercalate "-" [padded 4 m.year, padded 2 m.month, padded 2 m.day])
  | .hourly => some (String.intercalate "-"
      [padded 4 m.year, padded 2 m.month, padded 2 m.day, padded 2 m.hour])
  | .minutely => some (String.intercalate "-"
      [padded 4 m.year, padded 2 m.month, padded 2 m.day, padded 2 m.hour, padded 2 m.minute])

end Moment

/-- The name of the log file that is open at a point in time. -/
def logFileName (rotation : Rotation) (m : Moment) : String :=
  String.intercalate "." (["graphql_to_openapi"] ++ (m.stamp rotation).toList ++ ["log"])

end GraphRest
