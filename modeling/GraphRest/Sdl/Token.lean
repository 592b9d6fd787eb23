/-!
# Tokens of the schema language

Cutting a schema source into names, numbers, strings and marks. Blanks, commas, comments and the byte
order mark separate tokens and are dropped.
-/

namespace GraphRest.Sdl

/-- A token. Numbers keep their spelling, strings hold their value. -/
inductive Token where
  | mark (c : Char)
  | spread
  | name (text : String)
  | int (text : String)
  | float (text : String)
  | string (value : String)
  deriving DecidableEq

/-- A token and the source from its first character on. -/
structure Lexeme where
  token : Token
  source : List Char

/-! ## Character classes -/

def isIgnored (c : Char) : Bool :=
  c = ' ' || c = '\t' || c = '\n' || c = '\r' || c = ',' || c.toNat = 0xFEFF

/-- The characters that are tokens by themselves. -/
def isMark (c : Char) : Bool :=
  ['!', '$', '&', '(', ')', ':', '=', '@', '[', ']', '{', '|', '}'].contains c

/-- The characters a name can start with. -/
def startsName (c : Char) : Bool := c.isAlpha || c = '_'

def isNameChar (c : Char) : Bool := c.isAlphanum || c = '_'

def breaksLine (c : Char) : Bool := c = '\n' || c = '\r'

/-! ## Numbers -/

/-- Digits that may stand in front of a point: no zero leads further digits. -/
def isWholePart : List Char → Bool
  | [] => false
  | ['0'] => true
  | d :: _ => d ≠ '0'

/-- Takes an exponent off the head of a source: nothing if there is none, a failure if there is only a
part of one. -/
def takeExponent : List Char → Option (List Char × List Char)
  | c :: s =>
      if c = 'e' ∨ c = 'E' then
        let (sign, s) := match s with
          | '+' :: s => (['+'], s)
          | '-' :: s => (['-'], s)
          | s => ([], s)
        match s.span Char.isDigit with
        | ([], _) => none
        | (ds, s) => some (c :: sign ++ ds, s)
      else some ([], c :: s)
  | [] => some ([], [])

/-- Takes a fraction with its point off the head of a source. -/
def takeFraction : List Char → Option (List Char × List Char)
  | '.' :: s =>
      match s.span Char.isDigit with
      | ([], _) => none
      | (ds, s) => some ('.' :: ds, s)
  | s => some ([], s)

/-- Takes a number off the head of a source. A letter or a point may not follow it. -/
def takeNumber (s : List Char) : Option (Token × List Char) :=
  let (sign, s) := match s with
    | '-' :: s => (['-'], s)
    | s => ([], s)
  let (whole, s) := s.span Char.isDigit
  if !isWholePart whole then none
  else do
    let (fraction, s) ← takeFraction s
    let (exponent, s) ← takeExponent s
    if s.head?.any (fun c => startsName c || c = '.') then none
    let text := String.ofList (sign ++ whole ++ fraction ++ exponent)
    some (if fraction.isEmpty && exponent.isEmpty then .int text else .float text, s)

/-! ## Quoted strings -/

def hexValue? (c : Char) : Option Nat :=
  if c.isDigit then some (c.toNat - '0'.toNat)
  else if 'a' ≤ c ∧ c ≤ 'f' then some (c.toNat - 'a'.toNat + 10)
  else if 'A' ≤ c ∧ c ≤ 'F' then some (c.toNat - 'A'.toNat + 10)
  else none

/-- The value of hexadecimal digits, of which there must be one. -/
def hexNumber? (ds : List Char) : Option Nat :=
  if ds.isEmpty then none
  else ds.foldl (fun n c => do return (← n) * 16 + (← hexValue? c)) (some 0)

/-- The character with a code point, unless it is half of a surrogate pair or out of range. -/
def charOf? (n : Nat) : Option Char :=
  if n.isValidChar then some (Char.ofNat n) else none

/-- Takes four hexadecimal digits off the head of a source. -/
def takeUnit (s : List Char) : Option (Nat × List Char) :=
  if (s.take 4).length = 4 then (hexNumber? (s.take 4)).map (·, s.drop 4) else none

/-- Takes what follows `\u`: digits in braces, or four digits, or two surrogates of four digits. -/
def takeCodePoint : List Char → Option (Char × List Char)
  | '{' :: s =>
      match s.span (· ≠ '}') with
      | (ds, '}' :: s) => do return (← charOf? (← hexNumber? ds), s)
      | _ => none
  | s => do
      let (n, s) ← takeUnit s
      if 0xD800 ≤ n ∧ n < 0xDC00 then
        match s with
        | '\\' :: 'u' :: s => do
            let (m, s) ← takeUnit s
            if 0xDC00 ≤ m ∧ m < 0xE000 then
              return (← charOf? (0x10000 + (n - 0xD800) * 0x400 + (m - 0xDC00)), s)
            else none
        | _ => none
      else return (← charOf? n, s)

/-- The character that an escape of one letter stands for. -/
def simpleEscape? : Char → Option Char
  | '"' => some '"'
  | '\\' => some '\\'
  | '/' => some '/'
  | 'b' => some (Char.ofNat 8)
  | 'f' => some (Char.ofNat 12)
  | 'n' => some '\n'
  | 'r' => some '\r'
  | 't' => some '\t'
  | _ => none

/-- Takes the rest of a quoted string off a source. Every step takes a character at least, so the
length of the source bounds their number. -/
def takeQuoted : Nat → List Char → Option (List Char × List Char)
  | 0, _ => none
  | _, [] => none
  | fuel + 1, c :: s =>
      if c = '"' then some ([], s)
      else if breaksLine c then none
      else if c = '\\' then
        match s with
        | [] => none
        | e :: s =>
            match simpleEscape? e with
            | some d => (takeQuoted fuel s).map fun (t, s) => (d :: t, s)
            | none =>
                if e = 'u' then do
                  let (d, s) ← takeCodePoint s
                  (takeQuoted fuel s).map fun (t, s) => (d :: t, s)
                else none
      else (takeQuoted fuel s).map fun (t, s) => (c :: t, s)

/-! ## Block strings -/

/-- The raw text of a block string up to its closing marks, and the source behind them. -/
def takeBlock : List Char → Option (List Char × List Char)
  | [] => none
  | '"' :: '"' :: '"' :: s => some ([], s)
  | '\\' :: '"' :: '"' :: '"' :: s =>
      (takeBlock s).map fun (t, s) => ('\\' :: '"' :: '"' :: '"' :: t, s)
  | c :: s => (takeBlock s).map fun (t, s) => (c :: t, s)

/-- The lines of a block string, which end at a line feed, a carriage return or both. -/
def blockLines : List Char → List (List Char)
  | [] => [[]]
  | '\r' :: '\n' :: s => [] :: blockLines s
  | c :: s =>
      if breaksLine c then [] :: blockLines s
      else match blockLines s with
        | [] => [[c]]
        | l :: ls => (c :: l) :: ls

def indents (c : Char) : Bool := c = ' ' || c = '\t'

/-- Whether a line holds nothing but indentation. -/
def isBlankLine (l : List Char) : Bool := l.all indents

/-- The indentation common to all lines that are not blank. -/
def commonIndent (ls : List (List Char)) : Nat :=
  (((ls.filter fun l => !isBlankLine l).map fun l => (l.takeWhile indents).length).min?).getD 0

/-- Replaces the only escape of a block string, that of its closing marks. -/
def unescapeBlock : List Char → List Char
  | [] => []
  | '\\' :: '"' :: '"' :: '"' :: s => '"' :: '"' :: '"' :: unescapeBlock s
  | c :: s => c :: unescapeBlock s

/-- The value of a block string: without the indentation common to its lines from the second on, and
without blank lines at its ends. -/
def blockValue (raw : List Char) : List Char :=
  let ls := match blockLines raw with
    | [] => []
    | l :: ls => l :: ls.map (List.drop (commonIndent ls))
  let ls := ((ls.dropWhile isBlankLine).reverse.dropWhile isBlankLine).reverse
  List.intercalate ['\n'] (ls.map unescapeBlock)

/-! ## Cutting a source -/

/-- Takes one token off a source that begins with neither a separator nor a comment. -/
def takeToken : List Char → Option (Token × List Char)
  | '.' :: '.' :: '.' :: s => some (.spread, s)
  | '"' :: '"' :: '"' :: s =>
      (takeBlock s).map fun (t, s) => (.string (String.ofList (blockValue t)), s)
  | '"' :: s =>
      (takeQuoted (s.length + 1) s).map fun (t, s) => (.string (String.ofList t), s)
  | c :: s =>
      if isMark c then some (.mark c, s)
      else if startsName c then
        some (.name (String.ofList (c :: s.takeWhile isNameChar)), s.dropWhile isNameChar)
      else if c.isDigit || c = '-' then takeNumber (c :: s)
      else none
  | [] => none

/-- Cuts a source into tokens, or fails where no token fits. Every step takes a character at least. -/
def cut : Nat → List Char → Option (List Lexeme)
  | _, [] => some []
  | 0, _ => none
  | fuel + 1, c :: s =>
      if isIgnored c then cut fuel s
      else if c = '#' then cut fuel (s.dropWhile fun d => !breaksLine d)
      else do
        let (token, rest) ← takeToken (c :: s)
        return ⟨token, c :: s⟩ :: (← cut fuel rest)

def lexemes? (source : List Char) : Option (List Lexeme) := cut source.length source

end GraphRest.Sdl
