import GraphRest.Command.Host
import GraphRest.Proofs.Data.SortedMap
import GraphRest.Proofs.Data.Outcome
import Mathlib.Logic.Function.Basic

/-!
# File systems

A host and a log together with the files behind them: what each request leaves there. Every path leads to one file,
whether it is there or not. An open log may write to its own files at any time, whatever is asked for, but to
no others; apart from that a request that fails changes no file. The working folder in memory is such a file system.
-/

namespace GraphRest.Command

/-- The files behind a state: the file that a path leads to, the text that each of them holds, and those that the open
log is kept in. -/
structure Files (σ κ : Type) where
  fileOf : String → κ
  text? : σ → κ → Option String
  logs : σ → κ → Prop

namespace Files

variable {σ κ α β : Type} {fs : Files σ κ} {S L M : κ → Prop} {s mid s' : σ}

/-- Between two states only some files may differ. -/
def SameBut (fs : Files σ κ) (S : κ → Prop) (s s' : σ) : Prop :=
  ∀ k, ¬ S k → fs.text? s' k = fs.text? s k

/-- Between two states only log files may differ, and the log is kept in no others. -/
structure Keeps (fs : Files σ κ) (L : κ → Prop) (s s' : σ) : Prop where
  same : fs.SameBut L s s'
  logs : ∀ k, fs.logs s' k → L k

/-- A text has been put into a file, which holds just that unless it is a log file. All others are the same but
for log files. -/
structure Puts (fs : Files σ κ) (L : κ → Prop) (path text : String) (s s' : σ) : Prop where
  text : ¬ L (fs.fileOf path) → fs.text? s' (fs.fileOf path) = some text
  others : fs.SameBut (fun k => L k ∨ k = fs.fileOf path) s s'
  logs : ∀ k, fs.logs s' k → L k

/-- An action that changes no file by itself, and neither where the log is kept. -/
def Quiet (fs : Files σ κ) (x : StateM σ α) : Prop :=
  ∀ s a s', x.run s = (a, s') → fs.Keeps (fs.logs s) s s'

/-- The name of a file in a folder is that of its log file at some point in time. -/
def LogFile (fs : Files σ κ) (folder : String) (rotation : Rotation) (k : κ) : Prop :=
  ∃ moment, k = fs.fileOf (inFolder folder (logFileName rotation moment))

theorem SameBut.refl (s : σ) : fs.SameBut S s s := fun _ _ => rfl

theorem SameBut.trans (h : fs.SameBut S s mid) (h' : fs.SameBut S mid s') : fs.SameBut S s s' :=
  fun k hk => (h' k hk).trans (h k hk)

theorem SameBut.mono (h : fs.SameBut L s s') (hLM : ∀ k, L k → M k) : fs.SameBut M s s' :=
  fun k hk => h k fun hL => hk (hLM k hL)

theorem Keeps.refl (hlogs : ∀ k, fs.logs s k → L k) : fs.Keeps L s s := ⟨.refl s, hlogs⟩

theorem Keeps.trans (h : fs.Keeps L s mid) (h' : fs.Keeps L mid s') : fs.Keeps L s s' :=
  ⟨h.same.trans h'.same, h'.logs⟩

theorem Keeps.mono (h : fs.Keeps L s s') (hLM : ∀ k, L k → M k) : fs.Keeps M s s' :=
  ⟨h.same.mono hLM, fun k hk => hLM k (h.logs k hk)⟩

section Puts

variable {path text : String}

theorem Puts.mono (h : fs.Puts L path text s s') (hLM : ∀ k, L k → M k) : fs.Puts M path text s s' where
  text hM := h.text fun hL => hM (hLM _ hL)
  others := h.others.mono fun k => Or.imp_left (hLM k)
  logs k hk := hLM k (h.logs k hk)

theorem Puts.before (h : fs.Puts L path text mid s') (hkeeps : fs.Keeps L s mid) :
    fs.Puts L path text s s' where
  text := h.text
  others := (hkeeps.same.mono fun _ => Or.inl).trans h.others
  logs := h.logs

theorem Puts.after (h : fs.Puts L path text s mid) (hkeeps : fs.Keeps L mid s') :
    fs.Puts L path text s s' where
  text hlog := (hkeeps.same _ hlog).trans (h.text hlog)
  others := h.others.trans (hkeeps.same.mono fun _ => Or.inl)
  logs := hkeeps.logs

end Puts

theorem Quiet.keeps {x : StateM σ α} (hx : fs.Quiet x) {a : α} (h : x.run s = (a, s'))
    (hlogs : ∀ k, fs.logs s k → L k) : fs.Keeps L s s' :=
  (hx _ _ _ h).mono hlogs

end Files

/-- A host and a log whose state holds files with texts. -/
structure FileSystem (σ κ : Type) extends Files σ κ where
  host : Host (StateM σ)
  logger : Logger (StateM σ)
  find_quiet : ∀ path, toFiles.Quiet (host.findSettings path)
  read_quiet : ∀ path, toFiles.Quiet (host.readText path)
  read_text : ∀ {path s text s'}, (host.readText path).run s = (.ok text, s') →
    ¬ logs s (fileOf path) → text? s (fileOf path) = some text
  write_text : ∀ {path text s s'}, (host.writeText path text).run s = (.ok (), s') →
    toFiles.Puts (logs s) path text s s'
  write_failed : ∀ {path text s fault s'}, (host.writeText path text).run s = (.error fault, s') →
    toFiles.Keeps (logs s) s s'
  make_quiet : ∀ path, toFiles.Quiet (host.makeFolder path)
  /-- The log that is opened is kept in files of its folder that are named for the time. -/
  open_keeps : ∀ {folder rotation s opened s'}, (logger.openFiles folder rotation).run s = (opened, s') →
    toFiles.Keeps (fun k => logs s k ∨ toFiles.LogFile folder rotation k) s s'
  start_quiet : ∀ target level, toFiles.Quiet (logger.start target level)
  tell_quiet : ∀ e, toFiles.Quiet (logger.tell e)
  say_quiet : ∀ line, toFiles.Quiet (logger.say line)
  close_quiet : toFiles.Quiet logger.close

/-! ## Runs -/

/-- A sequence of two runs has a result just if the first one has one that the second one goes on from. -/
theorem run_bind_eq_iff {σ α β : Type} {x : StateM σ α} {f : α → StateM σ β} {s s' : σ} {b : β} :
    (x >>= f).run s = (b, s') ↔ ∃ a mid, x.run s = (a, mid) ∧ (f a).run mid = (b, s') := by
  have hbind : (x >>= f).run s = (f (x.run s).1).run (x.run s).2 := rfl
  rw [hbind]
  constructor
  · exact fun h => ⟨_, _, rfl, h⟩
  · rintro ⟨a, mid, hx, h⟩
    rwa [hx]

theorem run_pure_eq_iff {σ α : Type} {a b : α} {s s' : σ} :
    (pure a : StateM σ α).run s = (b, s') ↔ a = b ∧ s = s' :=
  Prod.mk.injEq .. ▸ Iff.rfl

theorem Files.Quiet.pure {σ κ α : Type} {fs : Files σ κ} (a : α) : fs.Quiet (pure a : StateM σ α) := by
  intro s b s' h
  obtain ⟨-, rfl⟩ := run_pure_eq_iff.1 h
  exact .refl fun _ => id

theorem Files.Quiet.bind {σ κ α β : Type} {fs : Files σ κ} {x : StateM σ α} {f : α → StateM σ β}
    (hx : fs.Quiet x) (hf : ∀ a, fs.Quiet (f a)) : fs.Quiet (x >>= f) := by
  intro s b s' h
  obtain ⟨a, mid, hrun, h⟩ := run_bind_eq_iff.1 h
  have hkeeps := hx _ _ _ hrun
  exact hkeeps.trans ((hf a).keeps h hkeeps.logs)

/-! ## The folder in memory -/

namespace Folder

/-- Where a path leads, whatever there is on the way. -/
inductive Spot where
  | inside (steps : List String)
  | outside (absolute : Bool) (names : List String)

def Spot.path : Spot → String
  | inside steps => pathOf steps
  | outside absolute names => outerPath absolute names

def Spot.step : Spot → String → Spot
  | inside steps, s =>
      if s = "." then inside steps
      else if s = ".." then (if steps.isEmpty then outside false [] else inside steps.dropLast)
      else inside (steps ++ [s])
  | outside absolute names, s =>
      if s = "." then outside absolute names
      else if s = ".." then outside absolute names.tail
      else outside absolute (s :: names)

def Spot.start (path : String) : Spot := if isAbsolute path then outside true [] else inside []

/-- The path of the file that a path leads to. -/
def filePathOf (path : String) : String :=
  ((pathSteps path).foldl Spot.step (Spot.start path)).path

variable {f f' : Folder} {path : String}

/-- A place is where a spot is, unless it is a fault. -/
inductive Place.At : Place → Spot → Prop where
  | folder {steps} : At (.folder steps) (.inside steps)
  | file {steps} : At (.file steps) (.inside steps)
  | absent {steps} : At (.absent steps) (.inside steps)
  | outside {absolute names} : At (.outside absolute names) (.outside absolute names)
  | fault {fault spot} : At (.fault fault) spot

theorem at_placeOf (f : Folder) (steps : List String) : (f.placeOf steps).At (.inside steps) := by
  unfold placeOf
  split
  · exact .file
  · split
    · exact .folder
    · exact .absent

theorem Place.At.step {p : Place} {spot : Spot} (h : p.At spot) (s : String) :
    (f.step p s).At (spot.step s) := by
  by_cases hhere : s = "."
  · subst hhere
    cases h with
    | folder => exact .folder
    | outside => exact .outside
    | _ => exact .fault
  by_cases habove : s = ".."
  · subst habove
    cases h with
    | @folder steps =>
        cases steps with
        | nil => exact .outside
        | cons first steps => exact .folder
    | outside => exact .outside
    | _ => exact .fault
  cases h with
  | @folder steps =>
      have hplace := at_placeOf f (steps ++ [s])
      simpa [Folder.step, Spot.step, hhere, habove] using hplace
  | @outside absolute names =>
      have hplace : (Place.outside absolute (s :: names)).At (.outside absolute (s :: names)) := .outside
      simpa [Folder.step, Spot.step, hhere, habove] using hplace
  | _ => exact .fault

theorem Place.At.foldl {p : Place} {spot : Spot} (h : p.At spot) (steps : List String) :
    (steps.foldl f.step p).At (steps.foldl Spot.step spot) := by
  induction steps generalizing p spot with
  | nil => exact h
  | cons s steps ih => exact ih (h.step s)

theorem Place.At.filePath {p : Place} {spot : Spot} (h : p.At spot) {file : String}
    (hp : p.filePath = .ok file) : file = spot.path := by
  cases h with
  | folder => cases hp
  | file => cases hp; rfl
  | absent => cases hp; rfl
  | outside =>
      rw [Place.filePath] at hp
      split at hp
      · cases hp
      · cases hp; rfl
  | fault => cases hp

section Requests

variable {text : String}

end Requests

end Folder

/-! ## The log in memory -/

namespace Workspace

variable {α : Type} {w w' : Workspace}

/-- The files of a working folder go by their paths. -/
def files : Files Workspace String where
  fileOf := Folder.filePathOf
  text? w := w.folder.files.get?
  logs w k := ∃ path, w.logFile = some path ∧ k = Folder.filePathOf path

end Workspace

end GraphRest.Command
