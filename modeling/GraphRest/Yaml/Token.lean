import GraphRest.Yaml.ScalarText

/-!
# YAML tokens

A text cut into tokens with their places. The columns of block collections are turned into tokens for
their starts and ends, and a key in front of a colon gets its token once the colon is found. Where the
text cannot be cut further the failure is the last token, behind those that can be relied on by then.
-/

namespace GraphRest.Yaml

/-- The tokens of a YAML text. -/
inductive Token where
  | blockListStart
  | blockFieldsStart
  | blockEnd
  | flowListStart
  | flowListEnd
  | flowFieldsStart
  | flowFieldsEnd
  | blockEntry
  | flowEntry
  | key
  | value
  | aliasTo (name : String)
  | anchor (name : String)
  /-- A tag: the handle that stands for its beginning, and the rest of its name. -/
  | tag (handle suffix : String)
  | scalar (plain : Bool) (text : String)
  /-- The version of the language. -/
  | version (major minor : Nat)
  /-- What a handle stands for. -/
  | handle (name meaning : String)
  | documentStart
  | documentEnd
  | textEnd
  /-- The text cannot be cut further. -/
  | broken (failure : Failure)
  deriving DecidableEq

/-- A token and the place where it begins. -/
abbrev PlacedToken := Token × Place

/-- A token that turns out to begin a key if a colon follows on its line. -/
structure PossibleKey where
  /-- How many tokens stand in front of it. -/
  position : Nat
  start : Cursor
  /-- Whether it stands where only a key can stand. -/
  required : Bool

/-- A cutting of a text into tokens, up to some place. -/
structure Cutting where
  cursor : Cursor
  /-- The tokens so far, the last one first. -/
  tokens : List PlacedToken := []
  /-- The columns of the open block collections, the innermost first. -/
  indents : List Nat := []
  /-- The possible key of each open flow collection and of the text around them. -/
  keys : List (Option PossibleKey) := [none]
  /-- Whether a key may begin here. -/
  keyAllowed : Bool := true

namespace Cutting

/-- The place up to which the text is cut. -/
def place (c : Cutting) : Place := c.cursor.place

/-- Whether the place is inside a flow collection. -/
def inFlow (c : Cutting) : Bool := 1 < c.keys.length

/-- The column of the innermost block collection. -/
def indent? (c : Cutting) : Option Nat := c.indents.head?

/-- Adds a token that begins at the place. -/
def emit (t : Token) (c : Cutting) : Cutting := { c with tokens := (t, c.place) :: c.tokens }

/-- Adds a token behind the first ones, as many as given. -/
def emitAt (position : Nat) (t : PlacedToken) (c : Cutting) : Cutting :=
  let later := c.tokens.length - position
  { c with tokens := c.tokens.take later ++ t :: c.tokens.drop later }

def goto (cursor : Cursor) (c : Cutting) : Cutting := { c with cursor }

/-- Says whether a key may begin at the next place. -/
def allowKey (b : Bool) (c : Cutting) : Cutting := { c with keyAllowed := b }

def fail {α : Type} (fault : Fault) (context : Option Context) (c : Cutting) : Except Failure α :=
  .error (.flawed fault c.place context)

/-! ## Indentation -/

/-- Ends the block collections in columns behind the given one. -/
def closeFrom (column : Nat) (place : Place) :
    List Nat → List PlacedToken → List Nat × List PlacedToken
  | [], ts => ([], ts)
  | i :: is, ts =>
      if column < i then closeFrom column place is ((.blockEnd, place) :: ts) else (i :: is, ts)

/-- Ends the block collections that a token in this column does not belong to. -/
def dedent (column : Nat) (c : Cutting) : Cutting :=
  if c.inFlow then c
  else
    let (indents, tokens) := closeFrom column c.place c.indents c.tokens
    { c with indents, tokens }

def dedentAll (c : Cutting) : Cutting :=
  if c.inFlow then c
  else { c with indents := [], tokens := c.indents.map (fun _ => (.blockEnd, c.place)) ++ c.tokens }

/-- Starts a block collection in a column, unless one is open there already. -/
def indentTo (start : Place) (t : Token) (position : Nat) (c : Cutting) : Cutting :=
  if c.inFlow || c.indent?.any (start.column ≤ ·) then c
  else { c.emitAt position (t, start) with indents := start.column :: c.indents }

/-- Starts a block collection at the next token. -/
def indentHere (t : Token) (c : Cutting) : Cutting := c.indentTo c.place t c.tokens.length

/-! ## Possible keys -/

/-- The greatest distance of a key from its colon. -/
def keyReach : Nat := 1024

/-- Whether a possible key can still be one. -/
def isFresh (cursor : Cursor) (k : PossibleKey) : Bool :=
  k.start.line == cursor.line && cursor.offset ≤ k.start.offset + keyReach

/-- Fails for a required key without a colon. -/
def failKey {α : Type} (k : PossibleKey) (c : Cutting) : Except Failure α :=
  c.fail .noColon (some ⟨.key, k.start.place⟩)

/-- The possible key that is too far behind although it is required, the outermost one. -/
def staleKey? (c : Cutting) : Option PossibleKey :=
  (c.keys.reverse.filterMap id).find? fun k => k.required && !isFresh c.cursor k

/-- Drops the possible keys that are too far behind; none of them may be required. -/
def dropStale (c : Cutting) : Except Failure Cutting :=
  match c.staleKey? with
  | some k => c.failKey k
  | none => .ok { c with keys := c.keys.map fun k => k.filter (isFresh c.cursor) }

/-- Drops the possible key of the innermost collection, which may not be required. -/
def dropKey (c : Cutting) : Except Failure Cutting :=
  match c.keys with
  | some k :: ks => if k.required then c.failKey k else .ok { c with keys := none :: ks }
  | _ => .ok c

/-- Notes that the next token may begin a key. -/
def noteKey (c : Cutting) : Except Failure Cutting :=
  if c.keyAllowed then do
    let required := !c.inFlow && c.indent? = some c.cursor.column
    let key : PossibleKey := ⟨c.tokens.length, c.cursor, required⟩
    let c ← c.dropKey
    return { c with keys := some key :: c.keys.tail }
  else .ok c

/-- The tokens that will not change: a token that may begin a key still can get tokens in front of
it. The last one stands first. -/
def settled (c : Cutting) : List PlacedToken :=
  let firstOpen := (c.keys.filterMap id).foldl (fun n k => min n k.position) c.tokens.length
  c.tokens.drop (c.tokens.length - firstOpen)

/-! ## Marks -/

/-- Cuts off the start of a flow collection. -/
def cutFlowStart (t : Token) (c : Cutting) : Except Failure Cutting := do
  let c ← c.noteKey
  let c := ((c.emit t).goto (c.cursor.skip 1)).allowKey true
  return { c with keys := none :: c.keys }

/-- Cuts off the end of a flow collection. -/
def cutFlowEnd (t : Token) (c : Cutting) : Except Failure Cutting := do
  let c ← c.dropKey
  let c := ((c.emit t).goto (c.cursor.skip 1)).allowKey false
  return { c with keys := if c.inFlow then c.keys.tail else c.keys }

/-- Cuts off the comma between the items of a flow collection. -/
def cutFlowEntry (c : Cutting) : Except Failure Cutting := do
  let c ← c.dropKey
  return ((c.emit .flowEntry).goto (c.cursor.skip 1)).allowKey true

/-- Cuts off the dash in front of an item of a block list. -/
def cutBlockEntry (c : Cutting) : Except Failure Cutting :=
  if !c.inFlow && !c.keyAllowed then c.fail .strayDash none
  else do
    let c ← (c.indentHere .blockListStart).dropKey
    return ((c.emit .blockEntry).goto (c.cursor.skip 1)).allowKey true

/-- Cuts off the question mark in front of a key. -/
def cutKey (c : Cutting) : Except Failure Cutting :=
  if !c.inFlow && !c.keyAllowed then c.fail .strayKey none
  else do
    let c ← (c.indentHere .blockFieldsStart).dropKey
    return ((c.emit .key).goto (c.cursor.skip 1)).allowKey (!c.inFlow)

/-- Cuts off the colon in front of a value, which may make a key of a token before it. -/
def cutValue (c : Cutting) : Except Failure Cutting :=
  match c.keys with
  | some k :: ks =>
      let start := k.start.place
      let c := ({ c with keys := none :: ks }.emitAt k.position (.key, start)).indentTo start
        .blockFieldsStart k.position
      .ok (((c.emit .value).goto (c.cursor.skip 1)).allowKey false)
  | _ =>
      if !c.inFlow && !c.keyAllowed then c.fail .strayValue none
      else
        let c := c.indentHere .blockFieldsStart
        .ok (((c.emit .value).goto (c.cursor.skip 1)).allowKey (!c.inFlow))

/-- Cuts off the mark of a document start or end. -/
def cutDocumentMark (t : Token) (c : Cutting) : Except Failure Cutting := do
  let c ← c.dedentAll.dropKey
  return ((c.emit t).goto (c.cursor.skip 3)).allowKey false

/-! ## Anchors -/

/-- Whether a character may stand in the name of an anchor, a directive or a handle. -/
def isNameChar (c : Char) : Bool := c.isAlphanum || c = '_' || c = '-'

/-- Whether an anchor may end in front of these characters. -/
def endsAnchor : List Char → Bool
  | [] => true
  | c :: _ => isBlankChar c || ['\n', '?', ':', ',', ']', '}', '%', '@', '`'].contains c

/-- Cuts off an anchor or an alias. -/
def cutAnchor (t : String → Token) (construct : Construct) (c : Cutting) :
    Except Failure Cutting := do
  let c ← c.noteKey
  let (name, behind) := (c.cursor.skip 1).takeWhile isNameChar
  if name.isEmpty || !endsAnchor behind.rest then
    failAt .noAnchorName behind.place construct c.place
  else return ((c.emit (t (String.ofList name))).goto behind).allowKey false

/-! ## Tags and directives -/

/-- Whether a character may stand in a tag. -/
def isTagChar (c : Char) : Bool :=
  isNameChar c ||
    [';', '/', '?', ':', '@', '&', '=', '+', '$', '.', '%', '!', '~', '*', '\'', '(', ')'].contains c

/-- Whether a character may stand in a tag that is written in full. -/
def isFullTagChar (c : Char) : Bool := isTagChar c || c = ',' || c = '[' || c = ']'

/-- Takes a handle: an exclamation mark, or a name between two of them. In front of the rest of a tag
the second one may be missing; then the name belongs to the rest. -/
def takeHandle (c : Cursor) : List Char × Cursor :=
  let (name, behind) := (c.skip 1).takeWhile isNameChar
  if behind.rest.head? = some '!' then ('!' :: name ++ ['!'], behind.skip 1) else ('!' :: name, behind)

/-- Takes a tag that begins at a place. -/
def takeTag (c : Cursor) : Except Failure (Token × Cursor) :=
  match c.rest with
  | '!' :: '<' :: _ =>
      let (name, behind) := (c.skip 2).takeWhile isFullTagChar
      if name.isEmpty then failAt .noTagName behind.place .tagName c.place
      else if behind.rest.head? = some '>' then .ok (.tag "" (String.ofList name), behind.skip 1)
      else failAt .noTagEnd behind.place .tag c.place
  | _ =>
      let (handle, behind) := takeHandle c
      let (suffix, after) := behind.takeWhile isTagChar
      if 1 < handle.length ∧ handle.getLast? = some '!' then
        if suffix.isEmpty then failAt .noTagName after.place .tagName c.place
        else .ok (.tag (String.ofList handle) (String.ofList suffix), after)
      else
        let name := handle.tail ++ suffix
        .ok (if name.isEmpty then .tag "" "!" else .tag "!" (String.ofList name), after)

def cutTag (c : Cutting) : Except Failure Cutting := do
  let c ← c.noteKey
  let (t, behind) ← takeTag c.cursor
  if blankAhead behind.rest || (c.inFlow && behind.rest.head? = some ',') then
    return ((c.emit t).goto behind).allowKey false
  else failAt .behindTag behind.place .tag c.place

def takeVersionNumber (start : Place) (c : Cursor) : Except Failure (Nat × Cursor) :=
  let (digits, behind) := c.takeWhile Char.isDigit
  if 9 < digits.length then failAt .longVersionNumber (c.skip 9).place .version start
  else if digits.isEmpty then failAt .noVersionNumber c.place .version start
  else .ok (digits.foldl (fun n d => n * 10 + (d.toNat - '0'.toNat)) 0, behind)

/-- Takes the version of the language behind the name of its directive. -/
def takeVersion (start : Place) (c : Cursor) : Except Failure (Token × Cursor) := do
  let (major, c) ← takeVersionNumber start (c.takeWhile isBlankChar).2
  if c.rest.head? = some '.' then
    let (minor, c) ← takeVersionNumber start (c.skip 1)
    return (.version major minor, c)
  else failAt .noVersionPoint c.place .version start

/-- Takes a handle and what it stands for behind the name of their directive. -/
def takeMeaning (start : Place) (c : Cursor) : Except Failure (Token × Cursor) := do
  let c := (c.takeWhile isBlankChar).2
  if c.rest.head? ≠ some '!' then failAt .noTagMark c.place .handle start
  let (handle, c) := takeHandle c
  if 1 < handle.length ∧ handle.getLast? ≠ some '!' then
    failAt .noTagMark c.place .handleOrPrefix start
  if !(c.rest.head?.any isBlankChar) then failAt .behindTagHandle c.place .handle start
  let (meaning, c) := (c.takeWhile isBlankChar).2.takeWhile isFullTagChar
  if meaning.isEmpty then failAt .noTagName c.place .handleOrPrefix start
  else if blankAhead c.rest then
    return (.handle (String.ofList handle) (String.ofList meaning), c)
  else failAt .behindTag c.place .handle start

def takeDirective (c : Cursor) : Except Failure (Token × Cursor) := do
  let (name, behind) := (c.skip 1).takeWhile isNameChar
  if name.isEmpty then failAt .noDirectiveName behind.place .directive c.place
  else if !blankAhead behind.rest then failAt .strayInDirectiveName behind.place .directive c.place
  else if name = ['Y', 'A', 'M', 'L'] then takeVersion c.place behind
  else if name = ['T', 'A', 'G'] then takeMeaning c.place behind
  else failAt .unknownDirective behind.place .directive c.place

/-- Cuts off a directive with the rest of its line. -/
def cutDirective (c : Cutting) : Except Failure Cutting := do
  let c ← c.dedentAll.dropKey
  let (t, behind) ← takeDirective c.cursor
  let behind := (behind.takeWhile isBlankChar).2
  let behind := if behind.rest.head? = some '#' then behind.toLineEnd else behind
  if lineEnds behind.rest then return ((c.emit t).goto behind.advance).allowKey false
  else failAt .behindDirective behind.place .directive c.place

/-! ## Scalars -/

def cutQuoted (quote : Char) (c : Cutting) : Except Failure Cutting := do
  let c ← c.noteKey
  let (text, behind) ← c.cursor.quoted quote
  return ((c.emit (.scalar false (String.ofList text))).goto behind).allowKey false

def cutBlock (folded : Bool) (c : Cutting) : Except Failure Cutting := do
  let c ← c.dropKey
  let (text, behind) ← c.cursor.block folded c.indent?
  return ((c.emit (.scalar false (String.ofList text))).goto behind).allowKey true

def cutPlain (c : Cutting) : Except Failure Cutting := do
  let c ← c.noteKey
  let indent := match c.indent? with
    | some n => n + 1
    | none => 0
  let p ← c.cursor.plain c.inFlow indent
  return ((c.emit (.scalar true (String.ofList p.text))).goto p.behind).allowKey p.lineLeft

/-- The characters that begin other tokens than plain scalars. -/
def indicators : List Char :=
  ['-', '?', ':', ',', '[', ']', '{', '}', '#', '&', '*', '!', '|', '>', '\'', '"', '%', '@', '`']

def startsPlain (inFlow : Bool) : List Char → Bool
  | [] => false
  | c :: s =>
      if isBlankChar c then false
      else !indicators.contains c || (c = '-' && !(s.head?.any isBlankChar)) ||
        (!inFlow && (c = '?' || c = ':') && !blankAhead s)

/-! ## Cutting a text -/

/-- Passes over blanks, comments and line breaks. -/
def skipBlank : Nat → Cutting → Cutting
  | 0, c => c
  | fuel + 1, c =>
      match c.cursor.rest with
      | ' ' :: _ => skipBlank fuel (c.goto c.cursor.advance)
      | '\t' :: _ =>
          if c.inFlow || !c.keyAllowed then skipBlank fuel (c.goto c.cursor.advance) else c
      | '#' :: _ => skipBlank fuel (c.goto c.cursor.toLineEnd)
      | '\n' :: _ =>
          skipBlank fuel ((c.goto c.cursor.advance).allowKey (c.keyAllowed || !c.inFlow))
      | _ => c

/-- Cuts off the token that begins at a character. -/
def cutToken (x : Char) (s : List Char) (c : Cutting) : Except Failure Cutting :=
  if c.cursor.column = 0 ∧ x = '%' then c.cutDirective
  else if c.cursor.atDocumentMark startMark then c.cutDocumentMark .documentStart
  else if c.cursor.atDocumentMark endMark then c.cutDocumentMark .documentEnd
  else if x = '[' then c.cutFlowStart .flowListStart
  else if x = '{' then c.cutFlowStart .flowFieldsStart
  else if x = ']' then c.cutFlowEnd .flowListEnd
  else if x = '}' then c.cutFlowEnd .flowFieldsEnd
  else if x = ',' then c.cutFlowEntry
  else if x = '-' ∧ blankAhead s then c.cutBlockEntry
  else if x = '?' ∧ (c.inFlow ∨ blankAhead s) then c.cutKey
  else if x = ':' ∧ (c.inFlow ∨ blankAhead s) then c.cutValue
  else if x = '*' then c.cutAnchor .aliasTo .aliasName
  else if x = '&' then c.cutAnchor .anchor .anchor
  else if x = '!' then c.cutTag
  else if x = '|' ∧ !c.inFlow then c.cutBlock false
  else if x = '>' ∧ !c.inFlow then c.cutBlock true
  else if x = '\'' ∨ x = '"' then c.cutQuoted x
  else if startsPlain c.inFlow (x :: s) then c.cutPlain
  else c.fail .noToken (some ⟨.nextToken, c.place⟩)

/-- Ends a text at its end, which lies at the beginning of a line. -/
def cutEnd (c : Cutting) : Except Failure Cutting := do
  let last := if c.cursor.column = 0 then c.cursor
    else { c.cursor with line := c.cursor.line + 1, column := 0 }
  let c ← (c.goto last).dedentAll.dropKey
  return c.emit .textEnd

/-- Passes over blanks and cuts off a token, or the end of the text; says which. -/
def step (c : Cutting) : Except Failure (Cutting × Bool) := do
  let c ← (skipBlank c.cursor.rest.length c).dropStale
  match c.cursor.rest with
  | [] => return (← c.cutEnd, true)
  | x :: s =>
      let c ← (c.dedent c.cursor.column).cutToken x s
      return (← c.dropStale, false)

/-- Cuts a text to its end, or up to a failure. Each token takes a character at least, so the number of
characters bounds the number of tokens. -/
def toEnd : Nat → Cutting → List PlacedToken
  | 0, c => c.settled.reverse
  | fuel + 1, c =>
      match c.step with
      | .error f => ((.broken f, c.place) :: c.settled).reverse
      | .ok (c, true) => c.tokens.reverse
      | .ok (c, false) => toEnd fuel c

end Cutting

/-- The bytes in front of the first character that may not stand in a text. -/
def strayOffset? (n : Nat) : List Char → Option Nat
  | [] => none
  | c :: s => if isAllowed c then strayOffset? (n + c.utf8Size) s else some n

/-- The tokens of a text; the last one is its end or a failure. -/
def tokens (text : String) : List PlacedToken :=
  let s := dropByteOrderMark text.toList
  match strayOffset? (if s.length = text.length then 0 else 3) s with
  | some offset => [(.broken (.character offset), {})]
  | none =>
      let s := normalizeBreaks s
      Cutting.toEnd (s.length + 1) { cursor := { rest := s } }

end GraphRest.Yaml
