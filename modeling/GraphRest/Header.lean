import GraphRest.Document.Basic
import GraphRest.Options.Basic
import GraphRest.Text.Basic

/-!
# The schema header

The text in front of the first declaration of a schema, a `"""` block or a run of `#` comments,
describes the API as a whole. Its first line is the title unless the options give one, the rest is the
description.
-/

namespace GraphRest.Header

open Text

/-- The mark around a block of description. -/
def blockQuote : List Char := ['"', '"', '"']

/-- The beginnings of a line that starts a declaration. -/
def declarationKeywords : List String := [
  "type ", "interface ", "scalar ", "enum ", "union ", "input ", "directive ", "schema ", "extend "]

/-- Whether a trimmed line starts a declaration, and so ends the header. -/
def declares (line : List Char) : Bool :=
  declarationKeywords.any (·.toList.isPrefixOf line) || line == "schema".toList ||
    ['s', 'c', 'h', 'e', 'm', 'a', '{'].isPrefixOf line

/-- The lines of the header among the lines of a schema. `inBlock` says whether a `"""` block is open,
`filled` whether a line with text was found. -/
def collect (inBlock filled : Bool) : List (List Char) → List (List Char)
  | [] => []
  | line :: rest =>
      let trimmed := trimChars line
      let keep (text : List Char) (inBlock : Bool) :=
        text :: collect inBlock (filled || !text.isEmpty) rest
      if inBlock then
        match beforeChars? blockQuote trimmed with
        | some last => keep (trimChars last) false
        | none => keep trimmed true
      else
        match afterChars? blockQuote trimmed with
        | some opening =>
            match beforeChars? blockQuote opening with
            | some text => keep (trimChars text) false
            | none => keep (trimChars opening) true
        | none =>
            if declares trimmed then []
            else
              match trimmed with
              | [] => if filled then [] else collect false filled rest
              | '#' :: comment => keep (trimChars comment) false
              | _ => collect false filled rest

def text (source : List Char) : List Char :=
  trimChars (List.intercalate ['\n'] (collect false false (lines source)))

/-- The first line of a header and what follows it, each trimmed. -/
def splitTitle (header : List Char) : List Char × List Char :=
  match header.span (· ≠ '\n') with
  | (first, rest) => (trimChars first, trimChars rest.tail)

/-- The title of a document whose header says nothing. -/
def defaultTitle : String := "Converted from GraphQL"

/-- The line at the end of every description. -/
def footer (version : String) : String := "Converted from GraphQL (" ++ version ++ ")"

/-- A description with the footer behind it. -/
def withFooter (description : List Char) (version : String) : String :=
  if description.isEmpty then footer version
  else String.ofList description ++ "\n\n---\n\n" ++ footer version

/-- The metadata of the document made from a schema source. -/
def info (options : Options) (source : String) : Info :=
  let header := text source.toList
  let (first, body) := splitTitle header
  let (title, description) :=
    match options.title with
    | some title => (title, header)
    | none => if first.isEmpty then (defaultTitle, header) else (String.ofList first, body)
  { title, description := some (withFooter description options.version), version := options.version }

/-- The servers of the document: the base address, if there is one. -/
def servers (options : Options) : List Server :=
  match options.baseUrl with
  | some url => if url.isEmpty then [] else [{ url }]
  | none => []

end GraphRest.Header
