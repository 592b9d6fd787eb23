import GraphRest.Data.SortedMap

/-!
# Conversion options

What a conversion can be told: the document's metadata, the prefix of its paths, whether resources are
detected, how names are inflected and how mutations are named.
-/

namespace GraphRest

/-- How the plural of a resource name is formed and undone. -/
structure InflectionRules where
  /-- Singular ending to plural ending, tried before any other rule. -/
  custom : SortedMap String := .empty
  /-- Endings that take `es`. -/
  esSuffixes : List String := ["s", "x", "z", "ch", "sh"]
  /-- The ending that becomes `ies` after a consonant; the empty text turns the rule off. -/
  iesSuffix : String := "y"
  /-- The ending added when no other rule applies. -/
  defaultSuffix : String := "s"
  deriving DecidableEq

/-- The beginnings of mutation names that mark an operation on a resource; an empty one marks none. -/
structure MutationPrefixes where
  create : String := "create"
  update : String := "update"
  delete : String := "delete"
  deriving DecidableEq

/-- Everything a conversion can be told. -/
structure Options where
  /-- The title of the document; without one the schema header supplies it. -/
  title : Option String := none
  /-- The version written into the document. -/
  version : String := "1.0.0"
  /-- The address of the only server. -/
  baseUrl : Option String := none
  /-- The text in front of every path. -/
  pathPrefix : String := ""
  /-- Whether root fields are gathered into resources. -/
  detectResources : Bool := true
  inflection : InflectionRules := {}
  mutationPrefixes : MutationPrefixes := {}
  deriving DecidableEq

def Options.path (o : Options) (route : String) : String := o.pathPrefix ++ route

end GraphRest
