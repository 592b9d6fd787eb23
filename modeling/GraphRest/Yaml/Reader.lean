import GraphRest.Data.Datum
import GraphRest.Yaml.Node
import GraphRest.Yaml.Plain

/-!
# Reading YAML

The value that a YAML document describes: aliases stand for what they name, scalars without quotes get
their types, and of several fields with one name the last remains. Of several failures the one that
comes first in the text is told.
-/

namespace GraphRest.Yaml

/-- What an anchor names: its value, and if it is no value of a key what it is and where. -/
structure Anchored where
  name : String
  value : Datum
  text : Except (Json.Found × Place) String

/-- What is known while a document is read. -/
structure Known where
  /-- What the handles of tags stand for. -/
  handles : List (String × String)
  /-- What the anchors name, the last one first. -/
  anchors : List Anchored := []

namespace Known

/-- Notes what the anchor of a node names. -/
def note (p : Properties) (value : Datum) (text : Except (Json.Found × Place) String) (k : Known) :
    Known :=
  match p.anchor with
  | some name => { k with anchors := ⟨name, value, text⟩ :: k.anchors }
  | none => k

/-- What an alias at a place names. -/
def anchored (k : Known) (name : String) (place : Place) : Except Failure Anchored :=
  match k.anchors.find? (·.name = name) with
  | some a => .ok a
  | none => .error (.unknownAnchor place)

/-- The full name of the tag of a node that begins at a place. -/
def tagName (k : Known) (p : Properties) (start : Place) : Except Failure (Option String) :=
  match p.tag with
  | none => .ok none
  | some t =>
      if t.handle.isEmpty then .ok (some t.suffix)
      else match k.handles.lookup t.handle with
        | some meaning => .ok (some (meaning ++ t.suffix))
        | none => .error (.flawed .unknownHandle t.place (some ⟨.node, start⟩))

end Known

/-! ## Scalars -/

/-- The value of a scalar without quotes. -/
def Plain.datum (s : String) : Plain → Datum
  | .null => .null
  | .bool b => .bool b
  | .whole n => .whole n
  | .negative n => .negative n
  | .float d => .float d
  | .text => .text s

/-- What stands in front of the names of the tags of the language itself. -/
def coreTag (name : String) : String := "tag:yaml.org,2002:" ++ name

/-- Whether a tag is local, for a type that is not known. -/
def isLocalTag (tag : String) : Bool := tag.toList.head? = some '!'

/-- The value of a scalar whose tag demands that its text is of some type. -/
def demanded (path wanted text : String) (place : Place) : Option Datum → Except Failure Datum
  | some d => .ok d
  | none => .error (.unfitTag path text wanted place)

/-- The value of a scalar with a tag of the language: the tag of a type demands that the text is of the
type, and any other tag makes it text. -/
def taggedScalar (path tag text : String) (place : Place) : Except Failure Datum :=
  if tag = coreTag "null" then
    demanded path "null" text place
      (if text ≠ "" ∧ Plain.of text = .null then some .null else none)
  else if tag = coreTag "bool" then
    demanded path "a boolean" text place (match Plain.of text with
      | .bool b => some (.bool b)
      | _ => none)
  else if tag = coreTag "int" then
    demanded path "an integer" text place (match Plain.of text with
      | .whole n => some (.whole n)
      | .negative n => some (.negative n)
      | _ => none)
  else if tag = coreTag "float" then
    demanded path "a float" text place ((Plain.float? text).map .float)
  else .ok (.text text)

/-- The value of a scalar under its tag. -/
def scalarDatum (path : String) (tag : Option String) (plain : Bool) (text : String) (place : Place) :
    Except Failure Datum :=
  match tag with
  | some tag =>
      if isLocalTag tag then .error (.unknownTag path place) else taggedScalar path tag text place
  | none => .ok (if plain then (Plain.of text).datum text else .text text)

/-- What stands in the place of a record or a text. -/
def scalarFound (plain : Bool) (text : String) : Json.Found :=
  if plain then
    match Plain.of text with
    | .null => .null
    | .bool b => .bool b
    | .whole n => .whole n
    | .negative n => .negative n
    | .float d => .float d
    | .text => .string text
  else .string text

/-! ## Paths -/

/-- The path of a field whose name is known. -/
def fieldPath (path : String) (name : Option String) : String :=
  (if path.isEmpty then "" else path ++ ".") ++ name.getD "?"

def itemPath (path : String) (position : Nat) : String := path ++ "[" ++ toString position ++ "]"

/-- The name of a field as it is written. -/
def writtenName : Node → Option String
  | .scalar _ _ text _ => some text
  | _ => none

/-! ## Nodes -/

/-- Fails where a collection stands instead of a text. -/
def failKey {α : Type} (path : String) (found : Json.Found) (place : Place) : Except Failure α :=
  .error (.misfit path found "a string" place)

/-- The text of a node that is a key, and what is known behind it. -/
def keyText (path : String) (k : Known) : Node → Except Failure (String × Known)
  | .aliasTo name place => do
      match (← k.anchored name place).text with
      | .ok text => return (text, k)
      | .error (found, place) => failKey path found place
  | .scalar p _ text place => do
      let _ ← k.tagName p place
      return (text, k.note p (.text text) (.ok text))
  | .list p _ place => do
      let _ ← k.tagName p place
      failKey path .list place
  | .fields p _ place => do
      let _ ← k.tagName p place
      failKey path .fields place
  | .broken f => .error f

/-- Fails for a collection with a local tag. -/
def passTag (path : String) (place : Place) : Option String → Except Failure Unit
  | some tag => if isLocalTag tag then .error (.unknownTag path place) else .ok ()
  | none => .ok ()

mutual

/-- The value of a node, and what is known behind it. -/
def datum (path : String) (k : Known) : Node → Except Failure (Datum × Known)
  | .aliasTo name place => do return ((← k.anchored name place).value, k)
  | .scalar p plain text place => do
      let d ← scalarDatum path (← k.tagName p place) plain text place
      return (d, k.note p d (.ok text))
  | .list p items place => do
      passTag path place (← k.tagName p place)
      let (ds, k) ← itemData path 0 k items
      return (.list ds, k.note p (.list ds) (.error (.list, place)))
  | .fields p entries place => do
      passTag path place (← k.tagName p place)
      let (es, k) ← entryData path k entries
      return (.ofEntries es, k.note p (.ofEntries es) (.error (.fields, place)))
  | .broken f => .error f

/-- The values of list items from a position on. -/
def itemData (path : String) (position : Nat) (k : Known) :
    List Node → Except Failure (List Datum × Known)
  | [] => .ok ([], k)
  | n :: ns => do
      let (d, k) ← datum (itemPath path position) k n
      let (ds, k) ← itemData path (position + 1) k ns
      return (d :: ds, k)

/-- The values of fields with their names. -/
def entryData (path : String) (k : Known) :
    List (Node × Node) → Except Failure (List (String × Datum) × Known)
  | [] => .ok ([], k)
  | (key, v) :: es => do
      let (name, k) ← keyText path k key
      let (d, k) ← datum (fieldPath path (writtenName key)) k v
      let (ds, k) ← entryData path k es
      return ((name, d) :: ds, k)

end

/-! ## Documents -/

/-- What is said on a document that is no record. -/
def noRecord {α : Type} (found : Json.Found) (place : Place) : Except Failure α :=
  .error (.misfit "" found "a map" place)

/-- The record that a root node describes; where nothing is written it has no fields. -/
def rootFields (k : Known) : Node → Except Failure (List (String × Datum))
  | .aliasTo _ place => .error (.unknownAnchor place)
  | .scalar p plain text place => do
      let tag ← k.tagName p place
      if text.isEmpty then return []
      else match tag with
        | some tag => noRecord (scalarFound (tag = coreTag "null") text) place
        | none => noRecord (scalarFound plain text) place
  | .list p _ place => do
      let _ ← k.tagName p place
      noRecord .list place
  | .fields p entries place => do
      let _ ← k.tagName p place
      return (← entryData "" k entries).1
  | .broken f => .error f

/-- Reads a text that describes a record; an empty document is one without fields. -/
def fields (text : String) : Except Failure Datum := do
  let document := Document.ofTokens (tokens text)
  let entries ← match document.root with
    | none => pure []
    | some n => rootFields { handles := document.handles } n
  match document.ending with
  | some f => throw f
  | none => return .ofEntries entries

end GraphRest.Yaml
