import GraphRest.Decimal.Double
import GraphRest.Json.Node

/-!
# Reading JSON

JSON text as a value with places. Columns count bytes, and a fault shows behind the byte that is
wrong.
-/

namespace GraphRest.Json

/-! ## Places -/

def Mark.after (m : Mark) (c : Char) : Mark :=
  if c = '\n' then ⟨m.line + 1, 0⟩ else ⟨m.line, m.column + c.utf8Size⟩

def Mark.afterAll (m : Mark) (cs : List Char) : Mark := cs.foldl Mark.after m

/-- The place behind the next byte, if there is one. -/
def Mark.pastByte (m : Mark) : List Char → Mark
  | [] => m
  | c :: _ => if c = '\n' then ⟨m.line + 1, 0⟩ else ⟨m.line, m.column + 1⟩

def Mark.pastBytes (m : Mark) : Nat → List Char → Mark
  | 0, _ => m
  | _, [] => m
  | n + 1, c :: cs =>
      if c.utf8Size ≤ n + 1 then (m.after c).pastBytes (n + 1 - c.utf8Size) cs
      else ⟨m.line, m.column + n + 1⟩
termination_by _ cs => cs.length

/-- A text from some place on. -/
structure Input where
  mark : Mark
  rest : List Char

namespace Input

def advance (i : Input) : Input :=
  match i.rest with
  | [] => i
  | c :: cs => ⟨i.mark.after c, cs⟩

/-- The input behind its first characters, as many as given. -/
def drop (i : Input) (n : Nat) : Input := ⟨i.mark.afterAll (i.rest.take n), i.rest.drop n⟩

def isSpace (c : Char) : Bool := c = ' ' || c = '\n' || c = '\t' || c = '\r'

def skipSpace (i : Input) : Input :=
  let spaces := i.rest.takeWhile isSpace
  ⟨i.mark.afterAll spaces, i.rest.dropWhile isSpace⟩

def faultAhead (i : Input) (fault : Fault) : Failure := ⟨fault, i.mark.pastByte i.rest⟩

/-- A fault in front of the next character. -/
def faultHere (i : Input) (fault : Fault) : Failure := ⟨fault, i.mark⟩

end Input

/-! ## Numbers -/

/-- Numbers of 64 bits take decimal digits as long as they fit. -/
def wordLimit : Nat := Nat.pow 2 64

/-- Takes digits into a number as long as it fits into a word; the digits left over. -/
def takeFitting (n : Nat) : List Char → Nat × List Char
  | [] => (n, [])
  | d :: ds =>
      let m := 10 * n + (d.toNat - '0'.toNat)
      if m < wordLimit then takeFitting m ds else (n, d :: ds)

/-- The magnitude of a finite double as a ratio. -/
def ratioOf (mantissa : Nat) (exponent : Int) : Double.Ratio :=
  (Double.Ratio.mk mantissa 1).scale 2 exponent

/-- The product or quotient of two positive doubles, rounded. -/
def combine (divide negative : Bool) (x y : Double) : Double :=
  match x, y with
  | .finite _ m e, .finite _ n f =>
      let r := ratioOf m e
      let s := ratioOf n f
      .ofRatio negative (if divide then ⟨r.num * s.den, r.den * s.num⟩ else ⟨r.num * s.num, r.den * s.den⟩)
  | _, _ => .infinite negative

/-- A word times a power of ten, in two roundings: that of the word and that of the result. Powers from
`10 ^ 309` on are out of range; small ones take further divisions by `10 ^ 308`. -/
def scaleWord (negative : Bool) (word : Nat) (exponent : Int) : Option Double :=
  let x := Double.ofDecimal negative word 0
  if word = 0 then some x
  else if 308 < exponent then none
  else if 0 ≤ exponent then
    match combine false negative x (.ofDecimal false 1 exponent) with
    | .infinite _ => none
    | d => some d
  else if -308 ≤ exponent then some (combine true negative x (.ofDecimal false 1 (-exponent)))
  else if -700 ≤ exponent then
    let y := combine true negative x (.ofDecimal false 1 308)
    if -616 ≤ exponent then some (combine true negative y (.ofDecimal false 1 (-exponent - 308)))
    else some (combine true negative (combine true negative y (.ofDecimal false 1 308))
      (.ofDecimal false 1 (-exponent - 616)))
  else some (.finite negative 0 Double.minExponent)

/-- The value of a number without fraction and exponent: an integer of 64 bits, or else a double. -/
def wholeValue (negative : Bool) (digits : List Char) : Option Scalar :=
  let (n, left) := takeFitting 0 digits
  if !left.isEmpty then (scaleWord negative n left.length).map .float
  else if !negative then some (.whole n)
  else if n = 0 ∨ Nat.pow 2 63 < n then some (.float (Double.ofDecimal true n 0))
  else some (.negative n)

/-- The value of a number with a fraction or an exponent. Digits that do not fit into a word count only by
their places. -/
def fractionValue (negative : Bool) (whole fraction : List Char) (exponent : Int) : Option Scalar :=
  let (n, left) := takeFitting 0 whole
  let (m, unused) := takeFitting n fraction
  let places : Int := (left.length : Int) - (fraction.length - unused.length)
  (scaleWord negative m (places + exponent)).map .float

/-- Takes the exponent of a number: its value and the input behind it. -/
def takeExponent (i : Input) : Except Failure (Int × Input) :=
  match i.rest with
  | c :: _ =>
      if c = 'e' ∨ c = 'E' then
        let j := i.advance
        let (negative, k) := match j.rest with
          | '+' :: _ => (false, j.advance)
          | '-' :: _ => (true, j.advance)
          | _ => (false, j)
        let ds := k.rest.takeWhile Char.isDigit
        if ds.isEmpty then
          .error (k.faultAhead (if k.rest.isEmpty then .endInValue else .invalidNumber))
        else
          let n : Int := Decimal.digitsValue ds
          .ok (if negative then -n else n, k.drop ds.length)
      else .ok (0, i)
  | [] => .ok (0, i)

/-- Takes a number off an input that begins with a digit or a minus sign. -/
def takeNumber (i : Input) : Except Failure (Scalar × Input) := do
  let negative := i.rest.head? = some '-'
  let j := if negative then i.advance else i
  let whole := j.rest.takeWhile Char.isDigit
  match whole with
  | [] => throw (j.faultAhead (if j.rest.isEmpty then .endInValue else .invalidNumber))
  | '0' :: _ :: _ => throw (j.advance.faultAhead .invalidNumber)
  | _ => pure ()
  let j := j.drop whole.length
  let fromPoint := j.rest.head? = some '.'
  let fraction := if fromPoint then j.rest.tail.takeWhile Char.isDigit else []
  if fromPoint ∧ fraction.isEmpty then
    let k := j.advance
    throw (k.faultAhead (if k.rest.isEmpty then .endInValue else .invalidNumber))
  let j := if fromPoint then j.drop (fraction.length + 1) else j
  let (exponent, k) ← takeExponent j
  let plain := !fromPoint && k.rest.length = j.rest.length
  let value := if plain then wholeValue negative whole
    else fractionValue negative whole fraction exponent
  return (value.getD (.flawed (k.faultHere .numberOutOfRange)), k)

/-! ## Strings -/

def hexValue? (c : Char) : Option Nat :=
  if c.isDigit then some (c.toNat - '0'.toNat)
  else if 'a' ≤ c ∧ c ≤ 'f' then some (c.toNat - 'a'.toNat + 10)
  else if 'A' ≤ c ∧ c ≤ 'F' then some (c.toNat - 'A'.toNat + 10)
  else none

def takeUnit (i : Input) : Except Failure (Nat × Input) :=
  if (i.rest.take 4).foldl (fun n c => n + c.utf8Size) 0 < 4 then
    .error ⟨.endInString, i.mark.afterAll i.rest⟩
  else
    match (i.rest.take 4).mapM hexValue? with
    | some ds => .ok (ds.foldl (fun n d => 16 * n + d) 0, i.drop 4)
    | none => .error ⟨.invalidEscape, i.mark.pastBytes 4 i.rest⟩

/-- What an escape stands for: a character, or a reason why it stands for none. -/
abbrev Escaped := Except Failure Char

/-- Takes what follows `\u`. Half of a surrogate pair is a flaw of the string, but the text goes on
behind it. -/
def takeUnicode (i : Input) : Except Failure (Escaped × Input) := do
  let (n, j) ← takeUnit i
  if 0xDC00 ≤ n ∧ n < 0xE000 then return (.error (j.faultHere .loneSurrogate), j)
  else if 0xD800 ≤ n ∧ n < 0xDC00 then
    match j.rest with
    | '\\' :: 'u' :: _ =>
        match takeUnit (j.drop 2) with
        | .ok (m, k) =>
            if 0xDC00 ≤ m ∧ m < 0xE000 then
              return (.ok (Char.ofNat (0x10000 + (n - 0xD800) * 0x400 + (m - 0xDC00))), k)
            else return (.error (k.faultHere .loneSurrogate), j)
        | .error failure => return (.error failure, j)
    | '\\' :: [] => return (.error (j.advance.faultHere .endInString), j)
    | '\\' :: _ => return (.error (j.advance.faultAhead .endOfEscape), j)
    | [] => return (.error (j.faultHere .endInString), j)
    | _ => return (.error (j.faultAhead .endOfEscape), j)
  else return (.ok (Char.ofNat n), j)

def takeEscape (i : Input) : Except Failure (Escaped × Input) :=
  match i.rest with
  | [] => .error (i.faultHere .endInString)
  | c :: _ =>
      let simple (d : Char) : Except Failure (Escaped × Input) := .ok (.ok d, i.advance)
      match c with
      | '"' => simple '"'
      | '\\' => simple '\\'
      | '/' => simple '/'
      | 'b' => simple (Char.ofNat 8)
      | 'f' => simple (Char.ofNat 12)
      | 'n' => simple '\n'
      | 'r' => simple '\r'
      | 't' => simple '\t'
      | 'u' => takeUnicode i.advance
      | _ => .error (i.faultAhead .invalidEscape)

/-- The text of a string, or the first of its flaws. -/
abbrev StringText := Except Failure (List Char)

/-- A string with a character in front. -/
def prepend (c : Escaped) (s : StringText) : StringText :=
  match c with
  | .ok c => s.map (c :: ·)
  | .error failure => .error failure

/-- Takes the rest of a string up to its closing quote. -/
def takeString : Nat → Input → Except Failure (StringText × Input)
  | 0, i => .error (i.faultHere .endInString)
  | fuel + 1, i =>
      match i.rest with
      | [] => .error (i.faultHere .endInString)
      | c :: _ =>
          if c = '"' then .ok (.ok [], i.advance)
          else if c = '\\' then do
            let (d, j) ← takeEscape i.advance
            let (s, k) ← takeString fuel j
            return (prepend d s, k)
          else if c.toNat < 32 then .error (i.faultAhead .controlCharacter)
          else do
            let (s, j) ← takeString fuel i.advance
            return (prepend (.ok c) s, j)

/-- Takes a string off an input that begins with a quote. -/
def takeQuoted (i : Input) : Except Failure (StringText × Input) :=
  takeString i.rest.length i.advance

/-! ## Values -/

def takeWord : List Char → Input → Except Failure Input
  | [], i => .ok i
  | w :: ws, i =>
      match i.rest with
      | [] => .error (i.faultHere .endInValue)
      | c :: _ => if c = w then takeWord ws i.advance else .error (i.faultAhead .expectedWord)

def takeScalar (i : Input) : Except Failure (Scalar × Input) :=
  match i.rest with
  | [] => .error (i.faultHere .endInValue)
  | c :: _ =>
      if c = 'n' then (takeWord "null".toList i).map (.null, ·)
      else if c = 't' then (takeWord "true".toList i).map (.bool true, ·)
      else if c = 'f' then (takeWord "false".toList i).map (.bool false, ·)
      else if c = '-' ∨ c.isDigit then takeNumber i
      else if c = '"' then
        (takeQuoted i).map fun
          | (.ok s, j) => (.string (String.ofList s), j)
          | (.error failure, j) => (.flawed failure, j)
      else .error (i.faultAhead .expectedValue)

/-- A value, and the input behind it unless the text breaks off in it. -/
abbrev Taken := Node × Option Input

/-- The parts of a list or an object, how the text breaks off in it, or the input behind it. -/
abbrev TakenParts (α : Type) := List α × Except Failure Input

/-- Puts a part in front of others. -/
def TakenParts.cons {α : Type} (a : α) (p : TakenParts α) : TakenParts α := (a :: p.1, p.2)

mutual

/-- Takes a value. The fuel bounds the number of values and parts inside. -/
def takeValue : Nat → Input → Taken
  | 0, i => (.broken i.mark (i.faultHere .endInValue), none)
  | fuel + 1, input =>
      let i := input.skipSpace
      match i.rest with
      | '[' :: _ =>
          match takeItems fuel true i.advance with
          | (items, .ok j) => (.list (some ⟨i.mark, j.mark⟩) items none, some j)
          | (items, .error failure) => (.list (some ⟨i.mark, failure.mark⟩) items (some failure), none)
      | '{' :: _ =>
          match takeEntries fuel true i.advance with
          | (entries, .ok j) => (.fields (some ⟨i.mark, j.mark⟩) entries none, some j)
          | (entries, .error failure) =>
              (.fields (some ⟨i.mark, failure.mark⟩) entries (some failure), none)
      | _ =>
          match takeScalar i with
          | .ok (value, j) => (.scalar (some ⟨i.mark, j.mark⟩) value, some j)
          | .error failure => (.broken i.mark failure, none)

/-- Takes the items of a list up to its closing bracket. -/
def takeItems : Nat → Bool → Input → TakenParts Node
  | 0, _, i => ([], .error (i.faultHere .endInList))
  | fuel + 1, first, input =>
      let i := input.skipSpace
      let item (j : Input) : TakenParts Node :=
        match takeValue fuel j with
        | (n, some k) => (takeItems fuel false k).cons n
        | (n, none) => ([n], .error (n.fault?.getD (j.faultHere .endInValue)))
      match i.rest with
      | [] => ([], .error (i.faultAhead .endInList))
      | ']' :: _ => ([], .ok i.advance)
      | c :: _ =>
          if first then item i
          else if c = ',' then
            let j := i.advance.skipSpace
            match j.rest with
            | [] => ([], .error (j.faultAhead .endInValue))
            | ']' :: _ => ([], .error (j.faultAhead .trailingComma))
            | _ => item j
          else ([], .error (i.faultAhead .expectedCommaOrBracket))

/-- Takes the fields of an object up to its closing brace. -/
def takeEntries : Nat → Bool → Input → TakenParts (String × Option Mark × Node)
  | 0, _, i => ([], .error (i.faultHere .endInObject))
  | fuel + 1, first, input =>
      let i := input.skipSpace
      let entry (j : Input) : TakenParts (String × Option Mark × Node) :=
        match takeQuoted j with
        | .error failure => ([], .error failure)
        | .ok (.error failure, _) => ([], .error failure)
        | .ok (.ok key, k) =>
            let key := String.ofList key
            let l := k.skipSpace
            match l.rest with
            | ':' :: _ =>
                match takeValue fuel l.advance with
                | (n, some m) => (takeEntries fuel false m).cons (key, some k.mark, n)
                | (n, none) =>
                    ([(key, some k.mark, n)], .error (n.fault?.getD (l.faultHere .endInValue)))
            | rest =>
                let failure := l.faultAhead (if rest.isEmpty then .endInObject else .expectedColon)
                ([(key, some k.mark, .broken l.mark failure)], .error failure)
      match i.rest with
      | [] => ([], .error (i.faultAhead .endInObject))
      | '}' :: _ => ([], .ok i.advance)
      | c :: _ =>
          if first then
            if c = '"' then entry i else ([], .error (i.faultAhead .keyNotString))
          else if c = ',' then
            let j := i.advance.skipSpace
            match j.rest with
            | [] => ([], .error (j.faultAhead .endInValue))
            | '"' :: _ => entry j
            | '}' :: _ => ([], .error (j.faultAhead .trailingComma))
            | _ => ([], .error (j.faultAhead .keyNotString))
          else ([], .error (i.faultAhead .expectedCommaOrBrace))

end

/-- A text as a value, and what stands behind the value if that should not be there. -/
structure Reading where
  value : Node
  trailing : Option Failure

def read (text : String) : Reading :=
  let cs := text.toList
  match takeValue (2 * cs.length + 2) ⟨⟨1, 0⟩, cs⟩ with
  | (n, none) => ⟨n, none⟩
  | (n, some i) =>
      let j := i.skipSpace
      ⟨n, if j.rest.isEmpty then none else some (j.faultAhead .trailingCharacters)⟩

end GraphRest.Json
