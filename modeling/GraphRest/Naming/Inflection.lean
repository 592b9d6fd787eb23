import GraphRest.Options.Basic
import GraphRest.Text.Basic

/-!
# Plural and singular

The inflection of resource names under a set of rules: custom endings first, the longest first, then
the `es` rule, the `ies` rule and the default ending.
-/

namespace GraphRest.InflectionRules

open Text

/-- The side of a custom entry that a word has to end in. -/
inductive Side where
  | singular
  | plural
  deriving DecidableEq

/-- The text on one side of a custom entry. -/
def Side.of : Side → String × String → String
  | .singular, entry => entry.1
  | .plural, entry => entry.2

/-- Whether a custom entry applies to a word: its side is a non-empty ending of the word. -/
def applies (side : Side) (word : String) (entry : String × String) : Bool :=
  !(side.of entry).isEmpty && endsWith word (side.of entry)

/-- Of two custom entries the one with the longer side, in bytes; the earlier one if they are even. -/
def longer (side : Side) (longest : Option (String × String)) (entry : String × String) :
    Option (String × String) :=
  match longest with
  | some current =>
      if (side.of entry).utf8ByteSize ≤ (side.of current).utf8ByteSize then some current
      else some entry
  | none => some entry

/-- The custom entry whose side is the longest ending of the word. -/
def longestMatch? (rules : InflectionRules) (side : Side) (word : String) :
    Option (String × String) :=
  (rules.custom.entries.filter (applies side word)).foldl (longer side) none

/-- Whether a word ends in one of the endings that take `es`. -/
def takesEs (rules : InflectionRules) (word : String) : Bool :=
  rules.esSuffixes.any fun e => !e.isEmpty && endsWith word e

/-- Whether a character is one of the five vowel letters, in either case. -/
def isVowel (c : Char) : Bool :=
  c.toLower ∈ ['a', 'e', 'i', 'o', 'u']

/-- The stem of a word that takes `ies`: what stands before the `ies` ending, if that is a
consonant. -/
def iesStem? (rules : InflectionRules) (word : String) : Option String :=
  if rules.iesSuffix.isEmpty then none
  else (before? rules.iesSuffix word).filter fun stem =>
    stem.toList.getLast?.any fun c => !isVowel c

def pluralize (rules : InflectionRules) (word : String) : String :=
  match rules.longestMatch? .singular word with
  | some entry => (before? entry.1 word).getD word ++ entry.2
  | none =>
      if rules.takesEs word then word ++ "es"
      else match rules.iesStem? word with
        | some stem => stem ++ "ies"
        | none => word ++ rules.defaultSuffix

/-- The part of a word before a given ending, if it is not empty. -/
def stem? (ending word : String) : Option String :=
  (before? ending word).filter fun stem => !stem.isEmpty

/-- The word before a regular plural ending: `ies`, `es` behind an ending that takes it, or the
default ending. -/
def regularSingular? (rules : InflectionRules) (word : String) : Option String :=
  let ies := if rules.iesSuffix.isEmpty then none else (stem? "ies" word).map (· ++ rules.iesSuffix)
  let es := (stem? "es" word).filter rules.takesEs
  let default := if rules.defaultSuffix.isEmpty then none else stem? rules.defaultSuffix word
  ies.or (es.or default)

/-- The singular of a word; one that no rule knows stays as it is. -/
def singularize (rules : InflectionRules) (word : String) : String :=
  match rules.longestMatch? .plural word with
  | some entry => (before? entry.2 word).getD word ++ entry.1
  | none => (rules.regularSingular? word).getD word

end GraphRest.InflectionRules
