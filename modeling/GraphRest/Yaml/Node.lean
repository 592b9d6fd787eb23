import GraphRest.Yaml.Token

/-!
# YAML nodes

The tree that a document describes, with anchors, aliases and tags as they are written. Where the tokens
do not make up a tree, the failure stands in the place of the node that was expected there.
-/

namespace GraphRest.Yaml

/-- A tag as it is written, and the place where it stands. -/
structure Tag where
  handle : String
  suffix : String
  place : Place
  deriving DecidableEq

/-- What stands in front of a node. -/
structure Properties where
  anchor : Option String := none
  tag : Option Tag := none

/-- A node of a document with the place where it begins. -/
inductive Node where
  | aliasTo (name : String) (place : Place)
  | scalar (properties : Properties) (plain : Bool) (text : String) (place : Place)
  | list (properties : Properties) (items : List Node) (place : Place)
  | fields (properties : Properties) (entries : List (Node × Node)) (place : Place)
  | broken (failure : Failure)

namespace Node

def placeAhead (ts : List PlacedToken) : Place := (ts.head?.map Prod.snd).getD {}

def absent (ts : List PlacedToken) : Node := scalar {} true "" (placeAhead ts)

def takeAnchor : List PlacedToken → Option String × List PlacedToken
  | (.anchor name, _) :: ts => (some name, ts)
  | ts => (none, ts)

def takeTag : List PlacedToken → Option Tag × List PlacedToken
  | (.tag handle suffix, place) :: ts => (some ⟨handle, suffix, place⟩, ts)
  | ts => (none, ts)

/-- Takes an anchor and a tag in either order. -/
def takeProperties (ts : List PlacedToken) : Properties × List PlacedToken :=
  let (anchor, ts) := takeAnchor ts
  let (tag, ts) := takeTag ts
  let (later, ts) := if anchor.isNone then takeAnchor ts else (none, ts)
  ({ anchor := anchor.or later, tag }, ts)

/-- Whether one of some tokens is ahead. -/
def ahead (ends : List Token) (ts : List PlacedToken) : Bool := ts.head?.any (ends.contains ·.1)

/-- The failure of tokens that do not go on as they should: that of the text, if it cannot be cut
further. -/
def failureOf (fault : Fault) (context : Option Context) : List PlacedToken → Failure
  | (.broken f, _) :: _ => f
  | ts => .flawed fault (placeAhead ts) context

/-- The failure of the text, if it cannot be cut further. -/
def textFailure? : List PlacedToken → Option Failure
  | (.broken f, _) :: _ => some f
  | _ => none

/-- What is taken off the head of tokens. Behind a failure no tokens remain but the failure itself. -/
abbrev Taker (α : Type) := List PlacedToken → α × List PlacedToken

def stuck (f : Failure) : List PlacedToken := [(.broken f, {})]

def fail (f : Failure) : Node × List PlacedToken := (broken f, stuck f)

/-- Items of which the next cannot be taken. -/
def failItems (f : Failure) : List Node × List PlacedToken := ([broken f], stuck f)

/-- Fields of which the next cannot be taken. -/
def failEntries (f : Failure) : List (Node × Node) × List PlacedToken :=
  ([(broken f, broken f)], stuck f)

/-- The node of properties that nothing follows, of which there must be one. -/
def absentBehind (p : Properties) (inBlock : Bool) (start : Place) : Taker Node := fun ts =>
  let f := failureOf .noContent (some ⟨if inBlock then .blockNode else .flowNode, start⟩) ts
  match textFailure? ts with
  | some f => fail f
  | none => if p.anchor.isSome || p.tag.isSome then (scalar p true "" start, ts) else fail f

mutual

/-- Takes a node. `inBlock` says whether it may be a block collection, `dashes` whether it may be a list
whose dashes stand in the column of the fields around it. The fuel bounds the number of tokens. -/
def take (inBlock dashes : Bool) : Nat → Taker Node
  | 0, ts => fail (failureOf .noContent none ts)
  | fuel + 1, ts =>
      let start := placeAhead ts
      match ts with
      | (.aliasTo name, _) :: ts => (aliasTo name start, ts)
      | ts =>
          let (p, ts) := takeProperties ts
          match ts with
          | (.blockEntry, _) :: _ =>
              if dashes then
                let (items, ts) := takeDashes fuel ts
                (list p items start, ts)
              else absentBehind p inBlock start ts
          | (.scalar plain text, _) :: ts => (scalar p plain text start, ts)
          | (.flowListStart, opening) :: ts =>
              let (items, ts) := takeFlowItems opening true fuel ts
              (list p items start, ts)
          | (.flowFieldsStart, opening) :: ts =>
              let (entries, ts) := takeFlowFields opening true fuel ts
              (fields p entries start, ts)
          | (.blockListStart, opening) :: behind =>
              if inBlock then
                let (items, ts) := takeItems opening fuel behind
                (list p items start, ts)
              else absentBehind p inBlock start ts
          | (.blockFieldsStart, opening) :: behind =>
              if inBlock then
                let (entries, ts) := takeFields opening fuel behind
                (fields p entries start, ts)
              else absentBehind p inBlock start ts
          | ts => absentBehind p inBlock start ts

/-- Takes a node, or nothing if one of some tokens is ahead. -/
def takeUnless (ends : List Token) (inBlock dashes : Bool) : Nat → Taker Node
  | 0, ts => fail (failureOf .noContent none ts)
  | fuel + 1, ts => if ahead ends ts then (absent ts, ts) else take inBlock dashes fuel ts

/-- Takes the items of a block list and its end. -/
def takeItems (start : Place) : Nat → Taker (List Node)
  | 0, ts => failItems (failureOf .noDash none ts)
  | fuel + 1, ts =>
      match ts with
      | (.blockEntry, _) :: ts =>
          let (item, ts) := takeUnless [.blockEntry, .blockEnd] true false fuel ts
          let (items, ts) := takeItems start fuel ts
          (item :: items, ts)
      | (.blockEnd, _) :: ts => ([], ts)
      | ts => failItems (failureOf .noDash (some ⟨.blockList, start⟩) ts)

/-- Takes the items of a list whose dashes stand in the column of the fields around it. -/
def takeDashes : Nat → Taker (List Node)
  | 0, ts => failItems (failureOf .noDash none ts)
  | fuel + 1, ts =>
      match ts with
      | (.blockEntry, _) :: ts =>
          let (item, ts) := takeUnless [.blockEntry, .key, .value, .blockEnd] true false fuel ts
          let (items, ts) := takeDashes fuel ts
          (item :: items, ts)
      | ts => ((textFailure? ts).map broken |>.toList, ts)

/-- Takes the value behind a colon, or nothing if there is no colon. -/
def takeValue (ends : List Token) (inBlock : Bool) : Nat → Taker Node
  | 0, ts => fail (failureOf .noContent none ts)
  | fuel + 1, ts =>
      match ts with
      | (.value, _) :: ts => takeUnless ends inBlock inBlock fuel ts
      | ts => ((textFailure? ts).elim (absent ts) broken, ts)

/-- Takes the fields of a block and its end. -/
def takeFields (start : Place) : Nat → Taker (List (Node × Node))
  | 0, ts => failEntries (failureOf .noKey none ts)
  | fuel + 1, ts =>
      match ts with
      | (.key, _) :: ts =>
          let (k, ts) := takeUnless [.key, .value, .blockEnd] true true fuel ts
          let (v, ts) := takeValue [.key, .value, .blockEnd] true fuel ts
          let (entries, ts) := takeFields start fuel ts
          ((k, v) :: entries, ts)
      | (.blockEnd, _) :: ts => ([], ts)
      | ts => failEntries (failureOf .noKey (some ⟨.blockFields, start⟩) ts)

/-- Takes an item of a flow list, which may be a single field. -/
def takeFlowItem : Nat → Taker Node
  | 0, ts => fail (failureOf .noContent none ts)
  | fuel + 1, ts =>
      match ts with
      | (.key, place) :: ts =>
          let (k, ts) := takeUnless [.value, .flowEntry, .flowListEnd] false false fuel ts
          let (v, ts) := takeValue [.flowEntry, .flowListEnd] false fuel ts
          (fields {} [(k, v)] place, ts)
      | ts => take false false fuel ts

/-- Takes the items of a flow list and its end. `first` says whether no item was taken yet; in front of
every other one stands a comma. -/
def takeFlowItems (start : Place) (first : Bool) : Nat → Taker (List Node)
  | 0, ts => failItems (failureOf .noListComma none ts)
  | fuel + 1, ts =>
      match first, ts with
      | _, (.flowListEnd, _) :: ts => ([], ts)
      | false, (.flowEntry, _) :: (.flowListEnd, _) :: ts => ([], ts)
      | false, (.flowEntry, _) :: ts =>
          let (item, ts) := takeFlowItem fuel ts
          let (items, ts) := takeFlowItems start false fuel ts
          (item :: items, ts)
      | true, ts =>
          let (item, ts) := takeFlowItem fuel ts
          let (items, ts) := takeFlowItems start false fuel ts
          (item :: items, ts)
      | false, ts => failItems (failureOf .noListComma (some ⟨.flowList, start⟩) ts)

/-- Takes a field of a flow collection. -/
def takeFlowField : Nat → Taker (Node × Node)
  | 0, ts => ((absent ts, absent ts), stuck (failureOf .noContent none ts))
  | fuel + 1, ts =>
      match ts with
      | (.key, _) :: ts =>
          let (k, ts) := takeUnless [.value, .flowEntry, .flowFieldsEnd] false false fuel ts
          let (v, ts) := takeValue [.flowEntry, .flowFieldsEnd] false fuel ts
          ((k, v), ts)
      | ts =>
          let (k, ts) := take false false fuel ts
          ((k, (textFailure? ts).elim (absent ts) broken), ts)

/-- Takes the fields of a flow collection and its end. -/
def takeFlowFields (start : Place) (first : Bool) : Nat → Taker (List (Node × Node))
  | 0, ts => failEntries (failureOf .noFieldsComma none ts)
  | fuel + 1, ts =>
      match first, ts with
      | _, (.flowFieldsEnd, _) :: ts => ([], ts)
      | false, (.flowEntry, _) :: (.flowFieldsEnd, _) :: ts => ([], ts)
      | false, (.flowEntry, _) :: ts =>
          let (entry, ts) := takeFlowField fuel ts
          let (entries, ts) := takeFlowFields start false fuel ts
          (entry :: entries, ts)
      | true, ts =>
          let (entry, ts) := takeFlowField fuel ts
          let (entries, ts) := takeFlowFields start false fuel ts
          (entry :: entries, ts)
      | false, ts => failEntries (failureOf .noFieldsComma (some ⟨.flowFields, start⟩) ts)

end

end Node

/-! ## Documents -/

/-- The first document of a text. -/
structure Document where
  /-- What the handles of tags stand for. -/
  handles : List (String × String) := []
  /-- The node of the document; a text of nothing but comments has none. -/
  root : Option Node
  /-- What comes behind the node, if the text does not end there. -/
  ending : Option Failure := none

namespace Document

def defaultHandles : List (String × String) := [("!", "!"), ("!!", "tag:yaml.org,2002:")]

def unbegun (f : Failure) : Document := { root := some (.broken f) }

/-- What is wrong behind a node: the text cannot be cut further, or another document follows. -/
def endingOf (ts : List PlacedToken) : Option Failure :=
  match Node.textFailure? ts with
  | some f => some f
  | none =>
      if Node.ahead [.textEnd] (ts.dropWhile (·.1 = .documentEnd)) then none
      else some .secondDocument

/-- The document of a node and the tokens behind it. -/
def ofContent (handles : List (String × String)) (content : Node × List PlacedToken) : Document :=
  { handles, root := some content.1, ending := endingOf content.2 }

def takeRoot (ts : List PlacedToken) : Node × List PlacedToken :=
  Node.take true false (2 * ts.length + 2) ts

/-- Whether a token begins or ends a document. -/
def bounds : Token → Bool
  | .version .. => true
  | .handle .. => true
  | .documentStart => true
  | .documentEnd => true
  | .textEnd => true
  | _ => false

/-- Takes the node of a document behind its start mark. -/
def takeMarkedRoot (ts : List PlacedToken) : Node × List PlacedToken :=
  if ts.head?.any (bounds ·.1) then (Node.absent ts, ts) else takeRoot ts

/-- Takes the directives of a document and its node. `versioned` says whether a version was given. -/
def ofDirectives (versioned : Bool) (handles : List (String × String)) :
    List PlacedToken → Document
  | (.version major minor, place) :: ts =>
      if versioned then unbegun (.flawed .secondVersion place none)
      else if major = 1 ∧ (minor = 1 ∨ minor = 2) then ofDirectives true handles ts
      else unbegun (.flawed .unknownVersion place none)
  | (.handle name meaning, place) :: ts =>
      if (handles.lookup name).isSome then unbegun (.flawed .secondHandle place none)
      else ofDirectives versioned ((name, meaning) :: handles) ts
  | (.documentStart, _) :: ts => ofContent (handles ++ defaultHandles) (takeMarkedRoot ts)
  | ts => unbegun (Node.failureOf .noDocumentStart none ts)

def ofTokens (ts : List PlacedToken) : Document :=
  match ts with
  | (.textEnd, _) :: _ => { root := none }
  | (.version .., _) :: _ => ofDirectives false [] ts
  | (.handle .., _) :: _ => ofDirectives false [] ts
  | (.documentStart, _) :: _ => ofDirectives false [] ts
  | _ => ofContent defaultHandles (takeRoot ts)

end Document

end GraphRest.Yaml
