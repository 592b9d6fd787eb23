import GraphRest.Text.Basic

/-!
# Command-line flags

Reading a command line under a table of flags. Every flag takes one value, behind an equals sign or as
the next word; a short flag may have it directly behind its letter. Where a line has several faults the
one that shows first is told.
-/

namespace GraphRest.Command

/-- Why the reading of a command line stops. -/
inductive Stop where
  /-- A flag that is not in the table, or a word that no flag wants. -/
  | unknownArgument
  /-- A value that is missing, or not among the possible ones. -/
  | invalidValue
  /-- A value that cannot be read. -/
  | unreadableValue
  /-- A flag that is given twice. -/
  | repeatedFlag
  /-- A value for the request for help. -/
  | unwantedValue
  /-- Help was asked for, the long text of it or the short one. -/
  | help (long : Bool)
  deriving DecidableEq

def Stop.message : Stop → String
  | unknownArgument => "unexpected argument found"
  | invalidValue => "a value is missing or not possible"
  | unreadableValue => "a value cannot be read"
  | repeatedFlag => "an argument cannot be used multiple times"
  | unwantedValue => "unexpected value for '--help'"
  | help _ => "help was asked for"

/-- A flag: its names, its description, and how a value of it changes what is known so far. -/
structure Flag (σ : Type) where
  name : String
  letter : Option Char := none
  placeholder : String
  about : String
  /-- What holds without the flag, as the long help says it. -/
  fallback : Option String := none
  /-- The values that can be given, if they are few. -/
  choices : List String := []
  set : String → σ → Except Stop σ

namespace Flag

variable {σ : Type}

/-- Sets a value that is given once at most. -/
def once {α : Type} (get : σ → Option α) (read : String → Except Stop α) (set : α → σ → σ) :
    String → σ → Except Stop σ := fun text s =>
  if (get s).isSome then .error .repeatedFlag else (read text).map (set · s)

def anyText (text : String) : Except Stop String := .ok text

/-- A value that names a file, and so is not empty. -/
def fileName (text : String) : Except Stop String :=
  if text.isEmpty then .error .invalidValue else .ok text

def truth (text : String) : Except Stop Bool :=
  if text = "true" then .ok true
  else if text = "false" then .ok false
  else .error .invalidValue

def looked {α : Type} (lookup : String → Option α) (text : String) : Except Stop α :=
  match lookup text with
  | some a => .ok a
  | none => .error .unreadableValue

end Flag

/-! ## Reading a line -/

/-- A flag that is given as a word of its own, and the value behind it once that is read. -/
inductive Pending (σ : Type) where
  | none
  | awaiting (flag : Flag σ)
  | filled (flag : Flag σ) (value : String)

variable {σ : Type}

/-- Sets the flag that is pending, whose value must be there by now. -/
def Pending.settle (p : Pending σ) (s : σ) : Except Stop σ :=
  match p with
  | none => .ok s
  | awaiting _ => .error .invalidValue
  | filled flag value => flag.set value s

/-- The name of a long flag and the value behind its equals sign. -/
def splitLong (word : List Char) : String × Option String :=
  match word.span (· ≠ '=') with
  | (name, _ :: value) => (String.ofList name, some (String.ofList value))
  | (name, []) => (String.ofList name, none)

/-- The value directly behind a flag letter; an equals sign in between is dropped. -/
def attachedValue : List Char → Option String
  | [] => none
  | '=' :: value => some (String.ofList value)
  | value => some (String.ofList value)

/-- Takes a flag: with its value at hand it is set, otherwise the value is awaited. -/
def takeFlag (flag : Flag σ) (value : Option String) (p : Pending σ) (s : σ) :
    Except Stop (Pending σ × σ) := do
  let s ← p.settle s
  match value with
  | some v => return (.none, ← flag.set v s)
  | none => return (.awaiting flag, s)

/-- Stops for help, unless the pending flag is at fault. -/
def stopForHelp (long : Bool) (p : Pending σ) (s : σ) : Except Stop (Pending σ × σ) := do
  let _ ← p.settle s
  throw (.help long)

def takeWord (flags : List (Flag σ)) (word : String) (p : Pending σ) (s : σ) :
    Except Stop (Pending σ × σ) :=
  match word.toList with
  | '-' :: '-' :: long =>
      let (name, value) := splitLong long
      if name = "help" then
        if value.isSome then .error .unwantedValue else stopForHelp true p s
      else match flags.find? (·.name = name) with
        | some flag => takeFlag flag value p s
        | none => .error .unknownArgument
  | '-' :: letter :: rest =>
      if letter = 'h' then stopForHelp false p s
      else match flags.find? (·.letter = some letter) with
        | some flag => takeFlag flag (attachedValue rest) p s
        | none => .error .unknownArgument
  | _ =>
      match p with
      | .awaiting flag => .ok (.filled flag word, s)
      | _ => .error .unknownArgument

/-- Reads the words of a line one after another. Behind `--` no flag can stand, and as all values belong
to flags, nothing at all. -/
def readWords (flags : List (Flag σ)) : List String → Pending σ → σ → Except Stop σ
  | [], p, s => p.settle s
  | word :: words, p, s =>
      if word = "--" then
        if words.isEmpty then p.settle s else .error .unknownArgument
      else (takeWord flags word p s).bind fun (p, s) => readWords flags words p s

def readLine (flags : List (Flag σ)) (start : σ) (words : List String) : Except Stop σ :=
  readWords flags words .none start

/-! ## Help -/

def Flag.usage (flag : Flag σ) : String :=
  (match flag.letter with
    | some c => "-" ++ String.singleton c ++ ", "
    | none => "    ") ++ "--" ++ flag.name ++ " <" ++ flag.placeholder ++ ">"

def Flag.choiceNote (flag : Flag σ) : Option String :=
  if flag.choices.isEmpty then none
  else some ("[possible values: " ++ String.intercalate ", " flag.choices ++ "]")

/-- The notes of the long help on a flag. -/
def Flag.notes (flag : Flag σ) : List String :=
  (flag.fallback.map fun f => "[default: " ++ f ++ "]").toList ++ flag.choiceNote.toList

/-- The help of a command: what it does, how it is called, and its flags. -/
structure Help (σ : Type) where
  about : String
  name : String
  flags : List (Flag σ)

namespace Help

/-- The indentation of a description below its flag. -/
def margin : String := "          "

/-- How the request for help is written. -/
def helpUsage : String := "-h, --help"

/-- The lines in front of the flags. -/
def opening (h : Help σ) : String :=
  h.about ++ "\n\nUsage: " ++ h.name ++ " [OPTIONS]\n\nOptions:\n"

/-- The short help, with each description below its flag. -/
def brief (h : Help σ) : String :=
  h.opening ++
    String.join (h.flags.map fun f =>
      "  " ++ f.usage ++ "\n" ++ margin ++ f.about ++
        String.join (f.choiceNote.toList.map fun n => " " ++ n) ++ "\n") ++
    "  " ++ helpUsage ++ "\n" ++ margin ++ "Print help (see more with '--help')\n"

/-- The long help, with all notes on a flag in paragraphs of their own. -/
def full (h : Help σ) : String :=
  h.opening ++
    String.join (h.flags.map fun f =>
      "  " ++ f.usage ++ "\n" ++ margin ++ f.about ++
        String.join (f.notes.map fun n => "\n" ++ margin ++ "\n" ++ margin ++ n) ++ "\n\n") ++
    "  " ++ helpUsage ++ "\n" ++ margin ++ "Print help (see a summary with '-h')\n"

def padTo (column : Nat) (text : String) : String :=
  text ++ String.ofList (List.replicate (column - text.length) ' ')

/-- The help of a command without notes, with each description beside its flag. -/
def beside (h : Help σ) : String :=
  let width := (h.flags.map fun f => f.usage.length).foldl max helpUsage.length
  h.opening ++
    String.join (h.flags.map fun f => "  " ++ padTo (width + 2) f.usage ++ f.about ++ "\n") ++
    "  " ++ padTo (width + 2) helpUsage ++ "Print help\n"

end Help

end GraphRest.Command
