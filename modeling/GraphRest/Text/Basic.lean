/-!
# Texts

Beginnings and ends of texts, blank characters, and lines. `after? p s` is the rest of `s` behind the
beginning `p`, `before? e s` the part of `s` before the ending `e`, and each answers exactly the texts that
put the two parts together again. `unlines` puts lines that hold no line feed together so that `lines` finds
them again.
-/

namespace GraphRest.Text

/-! ## Beginnings and ends -/

/-- The rest of a list of characters behind a given beginning. -/
def afterChars? : List Char → List Char → Option (List Char)
  | [], s => some s
  | _ :: _, [] => none
  | p :: ps, c :: s => if p = c then afterChars? ps s else none

theorem afterChars?_eq_some_iff {p s t : List Char} : afterChars? p s = some t ↔ s = p ++ t := by
  induction p generalizing s with
  | nil => simp [afterChars?, eq_comm]
  | cons a p ih =>
      cases s with
      | nil => simp [afterChars?]
      | cons c s =>
          by_cases h : a = c
          · simp [afterChars?, h, ih]
          · simp [afterChars?, h, Ne.symm h]

/-- The rest of `s` behind the beginning `p`, when `s` begins so. -/
def after? (p s : String) : Option String :=
  (afterChars? p.toList s.toList).map String.ofList

theorem after?_eq_some_iff {p s t : String} : after? p s = some t ↔ s = p ++ t := by
  simp only [after?, Option.map_eq_some_iff, afterChars?_eq_some_iff]
  constructor
  · rintro ⟨r, hr, rfl⟩
    rw [← String.toList_inj]
    simp [hr]
  · rintro rfl
    exact ⟨t.toList, by simp, by simp⟩

/-- The part of a list of characters before a given ending. -/
def beforeChars? (e s : List Char) : Option (List Char) :=
  (afterChars? e.reverse s.reverse).map List.reverse

theorem beforeChars?_eq_some_iff {e s t : List Char} : beforeChars? e s = some t ↔ s = t ++ e := by
  simp only [beforeChars?, Option.map_eq_some_iff, afterChars?_eq_some_iff]
  constructor
  · rintro ⟨r, hr, rfl⟩
    have := congrArg List.reverse hr
    simpa using this
  · rintro rfl
    exact ⟨t.reverse, by simp, by simp⟩

/-- The part of `s` before the ending `e`, when `s` ends so. -/
def before? (e s : String) : Option String :=
  (beforeChars? e.toList s.toList).map String.ofList

theorem before?_eq_some_iff {e s t : String} : before? e s = some t ↔ s = t ++ e := by
  simp only [before?, Option.map_eq_some_iff, beforeChars?_eq_some_iff]
  constructor
  · rintro ⟨r, hr, rfl⟩
    rw [← String.toList_inj]
    simp [hr]
  · rintro rfl
    exact ⟨t.toList, by simp, by simp⟩

def beginsWith (s p : String) : Bool := (after? p s).isSome

def endsWith (s e : String) : Bool := (before? e s).isSome

theorem endsWith_iff {s e : String} : endsWith s e = true ↔ ∃ t, s = t ++ e := by
  simp [endsWith, Option.isSome_iff_exists, before?_eq_some_iff]

/-- Whether the characters `p` stand somewhere in `s`. -/
def hasInfix (p : List Char) : List Char → Bool
  | [] => p.isEmpty
  | c :: s => p.isPrefixOf (c :: s) || hasInfix p s

/-- Whether the text `p` stands somewhere in `s`. -/
def contains (s p : String) : Bool := hasInfix p.toList s.toList

/-! ## Blanks

The characters with the Unicode property `White_Space`, and trimming a text of them. -/

/-- The characters that carry no ink: the Unicode property `White_Space`. -/
def isBlank (c : Char) : Bool :=
  let n := c.toNat
  (9 ≤ n && n ≤ 13) || n == 0x20 || n == 0x85 || n == 0xA0 || n == 0x1680 ||
    (0x2000 ≤ n && n ≤ 0x200A) || n == 0x2028 || n == 0x2029 || n == 0x202F ||
    n == 0x205F || n == 0x3000

/-- Drops the blanks at the end of a list of characters. -/
def dropBlankEnd (s : List Char) : List Char :=
  (s.reverse.dropWhile isBlank).reverse

/-- Drops the blanks at both ends of a list of characters. -/
def trimChars (s : List Char) : List Char :=
  dropBlankEnd (s.dropWhile isBlank)

/-- Drops the blanks at both ends of a text. -/
def trim (s : String) : String :=
  String.ofList (trimChars s.toList)

@[simp] theorem toList_trim (s : String) : (trim s).toList = trimChars s.toList := by
  simp [trim]

/-! ## Lines

A line ends at a line feed; the last one may go without. -/

/-- The lines of a text, without their line feeds. -/
def lines : List Char → List (List Char)
  | [] => []
  | c :: s =>
      if c = '\n' then [] :: lines s
      else match lines s with
        | [] => [[c]]
        | l :: ls => (c :: l) :: ls

/-- Puts lines together, a line feed behind each. -/
def unlines (ls : List (List Char)) : List Char :=
  ls.flatMap (· ++ ['\n'])

theorem lines_line {l : List Char} (h : '\n' ∉ l) (s : List Char) :
    lines (l ++ '\n' :: s) = l :: lines s := by
  induction l with
  | nil => simp [lines]
  | cons c l ih =>
      simp only [List.mem_cons, not_or] at h
      simp [lines, Ne.symm h.1, ih h.2]

theorem lines_unlines_append {ls : List (List Char)} (h : ∀ l ∈ ls, '\n' ∉ l) (s : List Char) :
    lines (unlines ls ++ s) = ls ++ lines s := by
  induction ls with
  | nil => rfl
  | cons l ls ih =>
      simp only [List.mem_cons, forall_eq_or_imp] at h
      have hcons : unlines (l :: ls) ++ s = l ++ '\n' :: (unlines ls ++ s) := by simp [unlines]
      rw [hcons, lines_line h.1, ih h.2, List.cons_append]

end GraphRest.Text
