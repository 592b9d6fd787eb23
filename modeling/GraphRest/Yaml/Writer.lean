import GraphRest.Decimal.Notation
import GraphRest.Tree
import GraphRest.Yaml.Plain

/-!
# Writing YAML

Data trees as YAML text in block style: two blanks of indentation a level, list items at the
indentation of their key, and each text in the plainest of the four scalar styles that reads back.
-/

namespace GraphRest.Yaml

/-- YAML writes no plus sign in exponents. -/
def numberStyle : Decimal.Style := ⟨""⟩

/-! ## Characters -/

/-- Characters that only double quotes can show: control characters other than the line feed, and
code points that are not characters. -/
def isSpecial (c : Char) : Bool :=
  let n := c.toNat
  (n < 32 && n != 10) || (0x7F ≤ n && n ≤ 0x9F) || n == 0xFEFF || n == 0xFFFE || n == 0xFFFF

/-- Whether a character separates words: a blank, or the end of the text. -/
def endsWord : List Char → Bool
  | [] => true
  | c :: _ => c = ' ' || c = '\t' || c = '\n' || c = '\r' || c.toNat = 0

/-- The characters that mean something at the start of a scalar. -/
def startIndicators : List Char :=
  ['#', ',', '[', ']', '{', '}', '&', '*', '!', '|', '>', '\'', '"', '%', '@', '`']

/-! ## Scalar styles -/

/-- Whether the first characters of a text would be read as a mark. -/
def startsLikeMark (s : List Char) : Bool :=
  ['-', '-', '-'].isPrefixOf s || ['.', '.', '.'].isPrefixOf s ||
    match s with
    | [] => true
    | c :: r => startIndicators.contains c || (['?', ':', '-'].contains c && endsWord r)

/-- Whether a key mark or a comment mark stands inside a text. `afterBlank` says whether a blank stands
in front of it. -/
def hasInnerMark (afterBlank : Bool) : List Char → Bool
  | [] => false
  | c :: r =>
      (c = ':' && endsWord r) || (c = '#' && afterBlank) || hasInnerMark (endsWord [c]) r

/-- Whether a text of one line can stand without quotes. -/
def plainAllowed (s : List Char) : Bool :=
  !startsLikeMark s && !hasInnerMark true s && s.head? != some ' ' && s.getLast? != some ' '

/-- Whether a blank stands directly in front of a line break. -/
def blankBeforeBreak : List Char → Bool
  | [] => false
  | c :: r => (c = ' ' && r.head? = some '\n') || blankBeforeBreak r

/-- Whether a text of several lines can stand as a literal block. -/
def literalAllowed (s : List Char) : Bool :=
  !s.any isSpecial && !blankBeforeBreak s && s.getLast? != some ' '

/-- The four ways to write a text. -/
inductive ScalarStyle where
  | plain
  | singleQuoted
  | doubleQuoted
  | literal
  deriving DecidableEq

/-- The plainest style that keeps a text. -/
def styleOf (s : String) : ScalarStyle :=
  let cs := s.toList
  if cs.contains '\n' then if literalAllowed cs then .literal else .doubleQuoted
  else if cs.any isSpecial then .doubleQuoted
  else if Plain.needsQuotes s || !plainAllowed cs then .singleQuoted
  else .plain

/-! ## Writing a scalar -/

/-- A line break and so many blanks. -/
def newline (indent : Nat) : List Char := '\n' :: List.replicate indent ' '

def hexDigit (n : Nat) : Char := (Nat.digitChar n).toUpper

/-- A number in hexadecimal digits, as many as given. -/
def hexDigits : Nat → Nat → List Char
  | 0, _ => []
  | width + 1, n => hexDigits width (n / 16) ++ [hexDigit (n % 16)]

/-- The characters with an escape of their own inside double quotes. -/
def namedEscapes : List (Nat × Char) := [
  (0, '0'), (7, 'a'), (8, 'b'), (9, 't'), (10, 'n'), (11, 'v'), (12, 'f'), (13, 'r'), (27, 'e'),
  (34, '"'), (92, '\\'), (0x85, 'N')]

/-- A character as it stands inside double quotes. -/
def escape (c : Char) : List Char :=
  match namedEscapes.lookup c.toNat with
  | some e => ['\\', e]
  | none =>
      if !isSpecial c then [c]
      else if c.toNat < 256 then '\\' :: 'x' :: hexDigits 2 c.toNat
      else '\\' :: 'u' :: hexDigits 4 c.toNat

/-- The mark of a literal block: an explicit indentation if the text begins with a blank or a break,
and how the line breaks at its end are kept. -/
def literalMark (s : List Char) : List Char :=
  let hint := if s.head? = some ' ' ∨ s.head? = some '\n' then ['2'] else []
  let ending := match s.reverse with
    | '\n' :: [] => ['+']
    | '\n' :: '\n' :: _ => ['+']
    | '\n' :: _ => []
    | _ => ['-']
  '|' :: hint ++ ending

/-- The lines of a literal block. An empty line carries no indentation. The last line break of the text
is left to what follows. -/
def literalLines (indent : Nat) : List Char → List Char
  | [] => []
  | '\n' :: [] => []
  | '\n' :: '\n' :: r => '\n' :: literalLines indent ('\n' :: r)
  | '\n' :: r => newline indent ++ literalLines indent r
  | c :: r => c :: literalLines indent r

/-- A text in the style that fits it, its further lines indented. -/
def scalar (indent : Nat) (s : String) : List Char :=
  let cs := s.toList
  match styleOf s with
  | .plain => cs
  | .singleQuoted => '\'' :: cs.flatMap (fun c => if c = '\'' then ['\'', '\''] else [c]) ++ ['\'']
  | .doubleQuoted => '"' :: cs.flatMap escape ++ ['"']
  | .literal => literalMark cs ++ literalLines indent ('\n' :: cs)

def number : Number → List Char
  | .whole n => (toString n).toList
  | .double (.finite negative m e) => (numberStyle.finite negative m e).toList
  | .double (.infinite false) => ['.', 'i', 'n', 'f']
  | .double (.infinite true) => ['-', '.', 'i', 'n', 'f']
  | .double .nan => ['.', 'n', 'a', 'n']

/-! ## Writing a tree -/

/-- Whether a key fits on the line of its value. -/
def isSimpleKey (k : String) : Bool := !k.toList.contains '\n' && k.utf8ByteSize ≤ 128

/-- Where the value of a key on the same line begins: its column. -/
def valueColumn (indent : Nat) : Tree → Nat
  | .list (_ :: _) => indent
  | _ => indent + 2

/-- What stands between the colon of a key and its value: lists and fields begin on a new line. -/
def valueLead (indent : Nat) (t : Tree) : List Char :=
  match t with
  | .list (_ :: _) => newline (valueColumn indent t)
  | .fields (_ :: _) => newline (valueColumn indent t)
  | _ => [' ']

/-- A key with everything up to its value. A long key, or one of several lines, stands on its own behind
a question mark. -/
def keyLead (indent : Nat) (k : String) (t : Tree) : List Char :=
  if isSimpleKey k then scalar indent k ++ ':' :: valueLead indent t
  else '?' :: ' ' :: scalar (indent + 2) k ++ newline indent ++ [':', ' ']

/-- The column of the value of a key. -/
def keyColumn (indent : Nat) (k : String) (t : Tree) : Nat :=
  if isSimpleKey k then valueColumn indent t else indent + 2

mutual

/-- A tree whose first character stands at the column `indent`. -/
def block (indent : Nat) : Tree → List Char
  | .null => ['n', 'u', 'l', 'l']
  | .bool b => if b then ['t', 'r', 'u', 'e'] else ['f', 'a', 'l', 's', 'e']
  | .number n => number n
  | .text s => scalar indent s
  | .list [] => ['[', ']']
  | .list (t :: ts) => '-' :: ' ' :: block (indent + 2) t ++ blockItems indent ts
  | .fields [] => ['{', '}']
  | .fields ((k, t) :: ts) =>
      keyLead indent k t ++ block (keyColumn indent k t) t ++ blockFields indent ts

/-- Further list items, each on a new line. -/
def blockItems (indent : Nat) : List Tree → List Char
  | [] => []
  | t :: ts => newline indent ++ '-' :: ' ' :: block (indent + 2) t ++ blockItems indent ts

/-- Further fields, each on a new line. -/
def blockFields (indent : Nat) : List (String × Tree) → List Char
  | [] => []
  | (k, t) :: ts =>
      newline indent ++ keyLead indent k t ++ block (keyColumn indent k t) t ++ blockFields indent ts

end

def text (t : Tree) : String := String.ofList (block 0 t ++ ['\n'])

end GraphRest.Yaml
