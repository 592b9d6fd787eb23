import GraphRest.Yaml.Failure

/-!
# Texts of YAML scalars

The three notations of a scalar: quoted, plain, and a block of lines. In all but literal blocks single
line breaks are folded into spaces.
-/

namespace GraphRest.Yaml

/-- Fails at a place while something is read. -/
def failAt {α : Type} (fault : Fault) (place : Place) (construct : Construct) (start : Place) :
    Except Failure α :=
  .error (.flawed fault place (some ⟨construct, start⟩))

/-- What a number of line breaks between words is folded into: one becomes a space, of more the first
is dropped. -/
def foldBreaks (breaks : Nat) : List Char :=
  if breaks = 1 then [' '] else List.replicate (breaks - 1) '\n'

/-- The blanks and line breaks between two words. -/
structure Gap where
  /-- The blanks, if there is no line break. -/
  blanks : List Char := []
  breaks : Nat := 0
  /-- The first tab in the indentation of a line, in front of the given column. -/
  tab : Option Place := none
  behind : Cursor

def takeGap (column : Nat) : Nat → Gap → Gap
  | 0, g => g
  | fuel + 1, g =>
      match g.behind.rest with
      | [] => g
      | c :: _ =>
          if c = '\n' then
            takeGap column fuel { g with blanks := [], breaks := g.breaks + 1, behind := g.behind.advance }
          else if isBlankChar c then
            let here :=
              if 0 < g.breaks ∧ g.behind.column < column ∧ c = '\t' then some g.behind.place else none
            let blanks := if g.breaks = 0 then g.blanks ++ [c] else []
            takeGap column fuel { g with blanks, tab := g.tab.or here, behind := g.behind.advance }
          else g

def Cursor.gap (c : Cursor) (column : Nat) : Gap := takeGap column c.rest.length { behind := c }

/-- What a gap between two words is read as. -/
def Gap.text (g : Gap) : List Char := if g.breaks = 0 then g.blanks else foldBreaks g.breaks

/-! ## Quoted scalars -/

def hexValue? (c : Char) : Option Nat :=
  if c.isDigit then some (c.toNat - '0'.toNat)
  else if 'a' ≤ c ∧ c ≤ 'f' then some (c.toNat - 'a'.toNat + 10)
  else if 'A' ≤ c ∧ c ≤ 'F' then some (c.toNat - 'A'.toNat + 10)
  else none

/-- The number that so many hexadecimal digits at the head of a text stand for. -/
def hexNumber? (digits : Nat) (s : List Char) : Option Nat :=
  if s.length < digits then none
  else (s.take digits).foldl (fun n c => do return (← n) * 16 + (← hexValue? c)) (some 0)

def charOf? (n : Nat) : Option Char :=
  if n.isValidChar then some (Char.ofNat n) else none

/-- The characters that an escape letter stands for, the reverse of the escapes in writing. -/
def escapedChar? : Char → Option Char
  | '0' => some '\x00'
  | 'a' => some '\x07'
  | 'b' => some '\x08'
  | 't' => some '\t'
  | '\t' => some '\t'
  | 'n' => some '\n'
  | 'v' => some '\x0b'
  | 'f' => some '\x0c'
  | 'r' => some '\r'
  | 'e' => some '\x1b'
  | ' ' => some ' '
  | '"' => some '"'
  | '/' => some '/'
  | '\\' => some '\\'
  | 'N' => some '\u0085'
  | '_' => some '\u00A0'
  | 'L' => some '\u2028'
  | 'P' => some '\u2029'
  | _ => none

/-- The number of hexadecimal digits behind an escape letter. -/
def escapeDigits? : Char → Option Nat
  | 'x' => some 2
  | 'u' => some 4
  | 'U' => some 8
  | _ => none

/-- Takes an escape of a scalar that begins at a place. -/
def takeEscape (start : Place) (c : Cursor) : Except Failure (Char × Cursor) :=
  match c.rest with
  | _ :: letter :: s =>
      match escapeDigits? letter with
      | some digits =>
          match hexNumber? digits s with
          | some n =>
              match charOf? n with
              | some x => .ok (x, c.skip (digits + 2))
              | none => failAt .noCharacter (c.skip 2).place .escape start
          | none => failAt .noHexDigit (c.skip 2).place .escape start
      | none =>
          match escapedChar? letter with
          | some x => .ok (x, c.skip 2)
          | none => failAt .unknownEscape c.place .escape start
  | _ => failAt .unknownEscape c.place .escape start

/-- Takes a quoted scalar that begins at a place, behind its opening quote. -/
def takeQuoted (start : Place) (quote : Char) : Nat → Cursor → Except Failure (List Char × Cursor)
  | 0, c => failAt .endOfText c.place .quoted start
  | fuel + 1, c =>
      if c.atAnyMark then failAt .documentMark c.place .quoted start
      else match c.rest with
        | [] => failAt .endOfText c.place .quoted start
        | x :: s =>
            if x = '\n' || isBlankChar x then do
              let g := c.gap 0
              let (text, c) ← takeQuoted start quote fuel g.behind
              return (g.text ++ text, c)
            else if x = quote then
              if quote = '\'' && s.head? = some '\'' then do
                let (text, c) ← takeQuoted start quote fuel (c.skip 2)
                return ('\'' :: text, c)
              else .ok ([], c.skip 1)
            else if x = '\\' && quote = '"' then
              if s.head? = some '\n' then do
                let g := (c.skip 1).advance.gap 0
                let (text, c) ← takeQuoted start quote fuel g.behind
                return (List.replicate g.breaks '\n' ++ text, c)
              else do
                let (x, c) ← takeEscape start c
                let (text, c) ← takeQuoted start quote fuel c
                return (x :: text, c)
            else do
              let (text, c) ← takeQuoted start quote fuel (c.skip 1)
              return (x :: text, c)

/-- Takes a quoted scalar, its quotes included. -/
def Cursor.quoted (c : Cursor) (quote : Char) : Except Failure (List Char × Cursor) :=
  takeQuoted c.place quote (c.rest.length + 1) (c.skip 1)

/-! ## Plain scalars -/

/-- Whether a character opens, closes or separates flow collections. -/
def isFlowMark (c : Char) : Bool := c = ',' || c = '[' || c = ']' || c = '{' || c = '}'

/-- Whether a colon inside flow collections stands directly in front of one of their marks, which is not
allowed in a plain scalar. -/
def strayColon (inFlow : Bool) : List Char → Bool
  | ':' :: x :: _ => inFlow && (isFlowMark x || x = '?')
  | _ => false

/-- Whether a plain scalar ends in front of these characters. -/
def endsPlain (inFlow : Bool) : List Char → Bool
  | [] => true
  | c :: s => (c = ':' && blankAhead s) || (inFlow && isFlowMark c)

/-- A plain scalar, and whether the place behind it is on a later line. -/
structure PlainText where
  text : List Char
  behind : Cursor
  lineLeft : Bool

/-- Takes a word of a plain scalar that begins at a place. -/
def takeWord (start : Place) (inFlow : Bool) : Nat → Cursor → Except Failure (List Char × Cursor)
  | 0, c => .ok ([], c)
  | fuel + 1, c =>
      if strayColon inFlow c.rest then failAt .strayColon c.place .plain start
      else if blankAhead c.rest || endsPlain inFlow c.rest then .ok ([], c)
      else do
        let (text, behind) ← takeWord start inFlow fuel (c.skip 1)
        return (c.rest.take 1 ++ text, behind)

/-- Takes the words of a plain scalar that begins at a place and whose lines have to be indented by so
many columns. `before` is what stands between the last word and the next. -/
def takePlain (start : Place) (inFlow : Bool) (indent : Nat) : Nat → Gap → Except Failure PlainText
  | 0, before => .ok ⟨[], before.behind, 0 < before.breaks⟩
  | fuel + 1, before =>
      let c := before.behind
      let finished : PlainText := ⟨[], c, 0 < before.breaks⟩
      if c.atAnyMark || c.rest.head? = some '#' then .ok finished
      else do
        let (word, behind) ← takeWord start inFlow c.rest.length c
        if word.isEmpty then return finished
        let g := behind.gap indent
        match g.tab with
        | some tab => failAt .tabInPlain tab .plain start
        | none =>
            if !inFlow && 0 < g.breaks && g.behind.column < indent then
              return ⟨before.text ++ word, g.behind, true⟩
            else if g.blanks.isEmpty && g.breaks = 0 then
              return ⟨before.text ++ word, g.behind, false⟩
            else do
              let more ← takePlain start inFlow indent fuel g
              return { more with text := before.text ++ word ++ more.text }

def Cursor.plain (c : Cursor) (inFlow : Bool) (indent : Nat) : Except Failure PlainText :=
  takePlain c.place inFlow indent (c.rest.length + 1) { behind := c }

/-! ## Blocks of lines -/

/-- What happens to the line breaks at the end of a block. -/
inductive Chomping where
  /-- The first of them stays. -/
  | clip
  /-- None of them stays. -/
  | strip
  /-- All of them stay. -/
  | keep
  deriving DecidableEq

def takeChomping (c : Cursor) : Option Chomping × Cursor :=
  match c.rest with
  | '+' :: _ => (some .keep, c.skip 1)
  | '-' :: _ => (some .strip, c.skip 1)
  | _ => (none, c)

/-- Takes an indentation digit, which may not be zero. -/
def takeIndentation (start : Place) (c : Cursor) : Except Failure (Option Nat × Cursor) :=
  match c.rest with
  | d :: _ =>
      if d = '0' then failAt .zeroIndentation c.place .blockScalar start
      else if d.isDigit then .ok (some (d.toNat - '0'.toNat), c.skip 1)
      else .ok (none, c)
  | [] => .ok (none, c)

/-- Takes the head of a block that begins at a place, behind its indicator, up to the first line. -/
def takeBlockHead (start : Place) (c : Cursor) :
    Except Failure (Chomping × Option Nat × Cursor) := do
  let (first, c) := takeChomping c
  let (indentation, c) ← takeIndentation start c
  let (second, c) := if first.isNone && indentation.isSome then takeChomping c else (none, c)
  let c := (c.takeWhile isBlankChar).2
  let c := if c.rest.head? = some '#' then c.toLineEnd else c
  if lineEnds c.rest then return ((first.or second).getD .clip, indentation, c.advance)
  else failAt .behindBlockHead c.place .blockScalar start

/-- Takes the empty lines and the indentation in front of the next line of a block: the number of empty
lines, and the deepest indentation on the way. -/
def takeIndentedBreaks (start : Place) (indent : Option Nat) :
    Nat → Nat → Nat → Cursor → Except Failure (Nat × Nat × Cursor)
  | 0, breaks, deepest, c => .ok (breaks, deepest, c)
  | fuel + 1, breaks, deepest, c =>
      let spaces := (c.takeWhile (· = ' ')).1.length
      let c := c.skip (match indent with
        | some n => min spaces (n - c.column)
        | none => spaces)
      let deepest := max deepest c.column
      if c.rest.head? = some '\t' && indent.all (c.column < ·) then
        failAt .tabInIndentation c.place .blockScalar start
      else if c.rest.head? = some '\n' then
        takeIndentedBreaks start indent fuel (breaks + 1) deepest c.advance
      else .ok (breaks, deepest, c)

/-- What is read between a line of a block and the next. -/
def blockJoin (folded lineBreak : Bool) (blankAround : Bool) (empty : Nat) : List Char :=
  let first :=
    if folded && lineBreak && !blankAround then (if empty = 0 then [' '] else [])
    else if lineBreak then ['\n'] else []
  first ++ List.replicate empty '\n'

/-- What stays of the line breaks behind the last line of a block. -/
def Chomping.ending (chomping : Chomping) (lineBreak : Bool) (empty : Nat) : List Char :=
  match chomping with
  | .strip => []
  | .clip => if lineBreak then ['\n'] else []
  | .keep => (if lineBreak then ['\n'] else []) ++ List.replicate empty '\n'

/-- Takes the lines of a block. `lineBreak` says whether a line break ended the line before,
`blankBefore` whether that line began with a blank, and `empty` counts the empty lines since. -/
def takeBlockLines (start : Place) (folded : Bool) (chomping : Chomping) (indent : Nat) :
    Nat → (lineBreak blankBefore : Bool) → (empty : Nat) → Cursor →
      Except Failure (List Char × Cursor)
  | 0, lineBreak, _, empty, c => .ok (chomping.ending lineBreak empty, c)
  | fuel + 1, lineBreak, blankBefore, empty, c =>
      if c.column = indent && !c.rest.isEmpty then do
        let blank := (c.rest.head?).any isBlankChar
        let join := blockJoin folded lineBreak (blankBefore || blank) empty
        let (line, c) := c.takeWhile fun _ => true
        let broken := !c.rest.isEmpty
        let (empty, _, c) ← takeIndentedBreaks start (some indent) (c.rest.length + 1) 0 0 c.advance
        let (text, c) ← takeBlockLines start folded chomping indent fuel broken blank empty c
        return (join ++ line ++ text, c)
      else .ok (chomping.ending lineBreak empty, c)

/-- Takes a block scalar, its indicator included, inside collections indented by `parent` columns. -/
def Cursor.block (c : Cursor) (folded : Bool) (parent : Option Nat) :
    Except Failure (List Char × Cursor) := do
  let start := c.place
  let (chomping, indentation, c) ← takeBlockHead start (c.skip 1)
  let least := match parent with
    | some n => n + 1
    | none => 0
  let given := indentation.map fun n => (match parent with
    | some p => p + n
    | none => n)
  let (empty, deepest, c) ← takeIndentedBreaks start given (c.rest.length + 1) 0 0 c
  let indent := given.getD (max (max deepest least) 1)
  takeBlockLines start folded chomping indent (c.rest.length + 1) false false empty c

end GraphRest.Yaml
