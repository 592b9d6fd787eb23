import GraphRest.Text.Basic
import GraphRest.Text.Case

/-!
# Titles and summaries

A camel-case name read as words, descriptions that carry the title of the field they describe, and the
first sentence of a description.
-/

namespace GraphRest.Naming

open Text

/-! ## Titles -/

/-- Puts a space in front of every letter `A` to `Z`. -/
def spaceWords (s : List Char) : List Char :=
  s.flatMap fun c => if c.isUpper then [' ', c] else [c]

/-- Reads a camel-case name as words: `addComment` is titled `Add Comment`. Runs of capitals are taken
apart letter by letter. -/
def title (name : String) : String :=
  match name.toList with
  | [] => ""
  | c :: r => String.ofList (upperChar c ++ spaceWords r)

/-- The beginnings of a description that already says what an operation does. -/
def actionVerbs : List String := [
  "List ", "Get ", "Fetch ", "Retrieve ", "Find ", "Create ", "Add ", "Insert ", "Post ", "Update ",
  "Modify ", "Edit ", "Put ", "Patch ", "Delete ", "Remove ", "Destroy ", "Search ", "Query ",
  "Filter "]

/-- A description with the title of its field in front, unless it begins with an action verb. -/
def titledDescription (name description : String) : String :=
  if description.isEmpty then title name
  else if actionVerbs.any (beginsWith description) then description
  else title name ++ " - " ++ description

/-! ## Summaries -/

/-- The texts that end the first sentence of a description. -/
def sentenceDelimiters : List (List Char) :=
  [['.', ' '], ['!', ' '], ['?', ' '], [':', ' '], [';', ' '], [' ', '-', ' ']]

/-- Whether a sentence delimiter stands at the head of `s`. -/
def delimiterAhead (s : List Char) : Bool := sentenceDelimiters.any (·.isPrefixOf s)

/-- The characters in front of the leftmost sentence delimiter. -/
def firstSentence? : List Char → Option (List Char)
  | [] => none
  | c :: s => if delimiterAhead (c :: s) then some [] else (firstSentence? s).map (c :: ·)

/-- A summary and the description that it summarises. -/
structure Summarised where
  summary : String
  description : String
  deriving DecidableEq

/-- Takes the first sentence of a text as its summary. A text of one sentence stands for both. -/
def summarise (text : String) : Summarised :=
  match firstSentence? text.toList with
  | some sentence => ⟨String.ofList (trimChars sentence), trim text⟩
  | none => ⟨text, text⟩

end GraphRest.Naming
