import GraphRest.Decimal.Double
import GraphRest.Document.Operation
import GraphRest.Naming.Title
import GraphRest.Sdl.Definition
import GraphRest.Text.Case

/-!
# Notices

The directives that a document shows. Each is read from its use in a schema into what it says, and then
noted on a fragment or on an operation. Other directives say nothing.
-/

namespace GraphRest

open Sdl

/-- The bounds that a `@constraint` directive sets. -/
structure Constraint where
  minLength : Option Nat := none
  maxLength : Option Nat := none
  minimum : Option Double := none
  maximum : Option Double := none
  pattern : Option String := none
  format : Option String := none
  deriving DecidableEq

/-- What a directive says. -/
inductive Notice where
  | deprecated (reason : Option String)
  | constraint (bounds : Constraint)
  | specifiedBy (url : String)
  deriving DecidableEq

/-! ## Reading directives -/

/-- Lengths are whole numbers of 64 bits. -/
def Constraint.lengthLimit : Nat := Nat.pow 2 64

/-- Sets the bound that an argument names. A number that cannot be read leaves its bound unset; an
argument without text changes nothing. -/
def Constraint.set (c : Constraint) (a : Argument) : Constraint :=
  match a.value.text? with
  | none => c
  | some text =>
      match a.name with
      | "minLength" => { c with minLength := Decimal.whole? lengthLimit text }
      | "maxLength" => { c with maxLength := Decimal.whole? lengthLimit text }
      | "min" => { c with minimum := Decimal.double? text }
      | "max" => { c with maximum := Decimal.double? text }
      | "pattern" => { c with pattern := some text }
      | "format" => { c with format := some text }
      | _ => c

/-- The bounds that the arguments of a directive set, one after another. -/
def Constraint.ofArguments (arguments : List Argument) : Constraint :=
  arguments.foldl Constraint.set {}

/-- The text of the first argument of a name. -/
def argumentText? (d : DirectiveUse) (name : String) : Option String :=
  (d.arguments.find? (·.name = name)).bind (·.value.text?)

namespace Notice

/-- What a directive says, if it is one that a document shows. -/
def ofDirective? (d : DirectiveUse) : Option Notice :=
  match d.name with
  | "deprecated" => some (deprecated (argumentText? d "reason"))
  | "constraint" => some (constraint (.ofArguments d.arguments))
  | "specifiedBy" => (argumentText? d "url").map specifiedBy
  | _ => none

/-- What a list of directives says, in order. -/
def ofDirectives (ds : List DirectiveUse) : List Notice := ds.filterMap ofDirective?

/-- The names of the `@constraint` arguments without text, which are passed over. -/
def ignoredArguments (ds : List DirectiveUse) : List String :=
  ds.flatMap fun d =>
    if d.name = "constraint" then
      (d.arguments.filter (·.value.text?.isNone)).map Argument.name
    else []

/-! ## Noting on a fragment -/

/-- The format that the address of a specification stands for. -/
def formatOfUrl? (url : String) : Option String :=
  let lower := Text.lowerAscii url
  if Text.contains lower "rfc4122" || Text.contains lower "uuid" then some "uuid"
  else if Text.contains lower "date-time" then some "date-time"
  else none

def addParagraph (description : Option String) (paragraph : String) : String :=
  match description with
  | some text => if text.isEmpty then paragraph else text ++ "\n\n" ++ paragraph
  | none => paragraph

/-- Notes bounds on a fragment; those that are not set leave it as it is. -/
def noteConstraint (c : Constraint) (f : Fragment) : Fragment :=
  { f with
    minLength := c.minLength.or f.minLength
    maxLength := c.maxLength.or f.maxLength
    minimum := c.minimum.or f.minimum
    maximum := c.maximum.or f.maximum
    pattern := c.pattern.or f.pattern
    format := c.format.or f.format }

/-- Puts a notice on the fragment of a field. -/
def note (fieldName : String) (f : Fragment) : Notice → Fragment
  | deprecated none => { f with deprecated := true }
  | deprecated (some reason) =>
      { f with
        deprecated := true
        description := some (Naming.title fieldName ++ " - DEPRECATED: " ++ reason) }
  | constraint c => noteConstraint c f
  | specifiedBy url =>
      { f with
        format := (formatOfUrl? url).or f.format
        description := some (addParagraph f.description ("Spec: " ++ url)) }

/-- Puts notices on the fragment of a field, one after another. -/
def noteAll (fieldName : String) (notices : List Notice) (f : Fragment) : Fragment :=
  notices.foldl (note fieldName) f

/-! ## Noting on an operation -/

/-- Puts a notice on an operation; only a deprecation shows there. -/
def noteOperation (o : Operation) : Notice → Operation
  | deprecated none => { o with deprecated := true }
  | deprecated (some reason) =>
      let warning := "DEPRECATED: " ++ reason
      let description := match o.description with
        | some text => if text.isEmpty then warning else warning ++ "\n\n" ++ text
        | none => warning
      { o with deprecated := true, summary := some warning, description := some description }
  | _ => o

/-- Puts notices on an operation, one after another. -/
def noteAllOperation (notices : List Notice) (o : Operation) : Operation :=
  notices.foldl noteOperation o

end Notice

end GraphRest
