/-!
# Places in a YAML text

A YAML text from some place on. All line breaks are line feeds by then, so that lines and columns can be
counted.
-/

namespace GraphRest.Yaml

/-- Whether a character may stand in a YAML text. -/
def isAllowed (c : Char) : Bool :=
  let n := c.toNat
  n == 0x09 || n == 0x0A || n == 0x0D || (0x20 ≤ n && n ≤ 0x7E) || n == 0x85 ||
    (0xA0 ≤ n && n ≤ 0xFFFD) || 0x10000 ≤ n

/-- Writes every line break as a line feed: a carriage return, alone or in front of a line feed, and
the next-line character. -/
def normalizeBreaks : List Char → List Char
  | '\r' :: '\n' :: s => '\n' :: normalizeBreaks s
  | '\r' :: s => '\n' :: normalizeBreaks s
  | '\u0085' :: s => '\n' :: normalizeBreaks s
  | c :: s => c :: normalizeBreaks s
  | [] => []

/-- The text without a byte-order mark at its head. -/
def dropByteOrderMark : List Char → List Char
  | '\uFEFF' :: s => s
  | s => s

/-- A place in a text: its line and its column, both counted from zero. -/
structure Place where
  line : Nat := 0
  column : Nat := 0
  deriving DecidableEq

/-- The text from some place on. -/
structure Cursor where
  line : Nat := 0
  column : Nat := 0
  offset : Nat := 0
  rest : List Char

namespace Cursor

def place (c : Cursor) : Place := ⟨c.line, c.column⟩

def advance (c : Cursor) : Cursor :=
  match c.rest with
  | [] => c
  | '\n' :: s => ⟨c.line + 1, 0, c.offset + 1, s⟩
  | _ :: s => ⟨c.line, c.column + 1, c.offset + 1, s⟩

/-- The place behind so many characters of the same line. -/
def skip (c : Cursor) (n : Nat) : Cursor :=
  ⟨c.line, c.column + n, c.offset + n, c.rest.drop n⟩

/-- Takes characters of the same line as long as they are of a kind. -/
def takeWhile (p : Char → Bool) (c : Cursor) : List Char × Cursor :=
  let taken := c.rest.takeWhile fun x => x ≠ '\n' && p x
  (taken, c.skip taken.length)

/-- The place behind the rest of the line, in front of its line break. -/
def toLineEnd (c : Cursor) : Cursor := (c.takeWhile fun _ => true).2

end Cursor

/-- Whether a character is a space or a tab. -/
def isBlankChar (c : Char) : Bool := c = ' ' || c = '\t'

/-- Whether nothing follows, or a space, a tab or a line break. -/
def blankAhead : List Char → Bool
  | [] => true
  | c :: _ => isBlankChar c || c = '\n'

/-- Whether a line break or nothing follows. -/
def lineEnds : List Char → Bool
  | [] => true
  | c :: _ => c = '\n'

/-- Whether a line begins here that marks the start or the end of a document. -/
def Cursor.atDocumentMark (c : Cursor) (mark : List Char) : Bool :=
  c.column == 0 && mark.isPrefixOf c.rest && blankAhead (c.rest.drop mark.length)

def startMark : List Char := ['-', '-', '-']

def endMark : List Char := ['.', '.', '.']

def Cursor.atAnyMark (c : Cursor) : Bool := c.atDocumentMark startMark || c.atDocumentMark endMark

end GraphRest.Yaml
