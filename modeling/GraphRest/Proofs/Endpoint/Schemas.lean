import GraphRest.Proofs.Conversion.Mapping
import GraphRest.Proofs.Data.OrderedMap
import GraphRest.Proofs.Endpoint.Emitted
import GraphRest.Proofs.Endpoint.Operations
import GraphRest.Proofs.Sdl.Names

/-!
# Schemas of operations

Where the schemas in the operation of an endpoint come from: the types of its field and of the arguments
of that, or the one name that a made up answer has. So an operation refers to what these types are mapped
to, and it sets no bounds. The directives of arguments are not noted on them.
-/

namespace GraphRest

open Sdl Conversion

namespace Endpoint

variable {g : TypeGraph} {options : Options} {f : Field} {s : Fragment} {r : String} {o : Operation}
  {e : Endpoint} {as : List InputValue}

/-! ## Bodies -/

theorem parts_bodySchema (g : TypeGraph) (as : List InputValue) :
    (bodySchema g as).parts = (OrderedMap.ofList (as.map (bodyProperty g))).map Prod.snd := by
  simp [bodySchema, Fragment.object, Fragment.ofType, Fragment.parts]

/-- A body embeds what the types of arguments are mapped to, described or not. -/
theorem exists_argument_of_mem_parts (hs : s ∈ (bodySchema g as).parts) :
    ∃ a ∈ as, s = g.fragment a.type ∨ ∃ text, s = (g.fragment a.type).described text := by
  rw [parts_bodySchema] at hs
  obtain ⟨x, hx, rfl⟩ := List.mem_map.1 hs
  obtain ⟨a, ha, rfl⟩ := List.mem_map.1 (OrderedMap.mem_of_mem_ofList hx)
  refine ⟨a, ha, ?_⟩
  unfold bodyProperty
  cases nonEmpty a.description with
  | none => exact Or.inl rfl
  | some text => exact Or.inr ⟨text, rfl⟩

theorem schemas_requestBody? (g : TypeGraph) (as : List InputValue) :
    (requestBody? g as).toList.flatMap (fun b => contentSchemas b.content) =
      if as.isEmpty then [] else [bodySchema g as] := by
  unfold requestBody?
  split <;> rfl

/-! ## The schemas of each kind of operation -/

/-- What the schemas in an operation can come from: the type of its field and those of the arguments, the
body of all arguments, the `id` in the path and the text of a stream. -/
inductive SchemaOf (g : TypeGraph) (f : Field) : Fragment → Prop where
  | answer : SchemaOf g f (g.fragment f.type)
  | argument {a : InputValue} (ha : a ∈ f.arguments) : SchemaOf g f (g.fragment a.type)
  | body : SchemaOf g f (bodySchema g f.arguments)
  | id : SchemaOf g f .string
  | stream (text : String) : SchemaOf g f (Fragment.string.described text)

theorem schemas_queryOperation : (queryOperation g f).schemas =
    (f.arguments.map fun a => g.fragment a.type) ++ [g.fragment f.type] := by
  rw [Operation.schemas, parameters_queryOperation, requestBody_queryOperation,
    responses_queryOperation]
  simp [parameter, jsonResponses, Response.ofContent, contentSchemas, List.flatMap_map,
    ← List.map_eq_flatMap]

theorem schemas_streamParameters (placed : Bool) (as : List InputValue) :
    ((streamParameters g placed as).flatMap fun p => p.schema.toList) =
      as.map fun a => g.fragment a.type := by
  induction as generalizing placed with
  | nil => rfl
  | cons a as ih =>
      rw [streamParameters]
      split <;> simp [parameter, ih]

theorem schemaOf_queryOperation (hs : s ∈ (queryOperation g f).schemas) : SchemaOf g f s := by
  rw [schemas_queryOperation] at hs
  rcases List.mem_append.1 hs with hs | hs
  · obtain ⟨a, ha, rfl⟩ := List.mem_map.1 hs
    exact .argument ha
  · rw [List.mem_singleton.1 hs]
    exact .answer

theorem schemaOf_subscriptionOperation (hs : s ∈ (subscriptionOperation g f).schemas) :
    SchemaOf g f s := by
  rw [Operation.schemas, parameters_subscriptionOperation, requestBody_subscriptionOperation,
    responses_subscriptionOperation, schemas_streamParameters] at hs
  rcases List.mem_append.1 hs with hs | hs
  · rw [Option.toList_none, List.flatMap_nil, List.append_nil] at hs
    obtain ⟨a, ha, rfl⟩ := List.mem_map.1 hs
    exact .argument ha
  · rw [List.mem_singleton.1 hs]
    exact .stream _

/-- Operations of mutations take their arguments in the body, if at all, and `id` in the path. -/
theorem schemaOf_of_mutation (hparameters : ∀ p ∈ o.parameters, p = .idInPath)
    (hbody : ∀ b, o.requestBody = some b → requestBody? g f.arguments = some b)
    (hresponses : o.responses = jsonResponses (g.fragment f.type)) (hs : s ∈ o.schemas) :
    SchemaOf g f s := by
  rw [Operation.schemas, hresponses] at hs
  rcases List.mem_append.1 hs with hs | hs
  · rcases List.mem_append.1 hs with hs | hs
    · obtain ⟨p, hp, hs⟩ := List.mem_flatMap.1 hs
      rw [hparameters p hp] at hs
      rw [List.mem_singleton.1 hs]
      exact .id
    · obtain ⟨b, hb, hs⟩ := List.mem_flatMap.1 hs
      have hs : s ∈ (requestBody? g f.arguments).toList.flatMap fun b => contentSchemas b.content := by
        rw [hbody b (Option.mem_toList.1 hb)]
        exact List.mem_flatMap.2 ⟨b, List.mem_singleton_self b, hs⟩
      rw [schemas_requestBody?] at hs
      split at hs
      · cases hs
      · rw [List.mem_singleton.1 hs]
        exact .body
  · rw [List.mem_singleton.1 hs]
    exact .answer

theorem schemaOf_mutationOperation {fallback : Option String}
    (hs : s ∈ (mutationOperation g f fallback).schemas) : SchemaOf g f s := by
  refine schemaOf_of_mutation (fun p hp => ?_) (fun b hb => ?_) responses_mutationOperation hs
  · rw [parameters_mutationOperation] at hp
    cases hp
  · rwa [requestBody_mutationOperation] at hb

theorem schemaOf_changeResource {p : ResourcePattern} {kind : CrudOperation}
    (hs : s ∈ (changeResource g p kind f).operation.schemas) : SchemaOf g f s :=
  schemaOf_of_mutation (fun _ => parameters_changeResource) (fun _ => requestBody_changeResource)
    responses_changeResource hs

theorem schemas_resourceList (p : ResourcePattern) :
    (resourceList p).operation.schemas = [.array (.referTo p.target)] :=
  rfl

theorem schemas_resourceItem (p : ResourcePattern) :
    (resourceItem p).operation.schemas = [.string, .referTo p.target] :=
  rfl

theorem schemas_memberEndpoint (rules : InflectionRules) (owner : String) (f : Field) :
    (memberEndpoint rules owner f).operation.schemas =
      [.string, .array (.referTo f.type.innermost)] :=
  rfl

/-! ## What operations refer to -/

/-- What the references of a field go back to. -/
def Named (g : TypeGraph) (f : Field) (r : String) : Prop :=
  ∃ n ∈ f.namedTypes, r ∈ (g.namedFragment n).references

theorem named_of_argument {a : InputValue} (ha : a ∈ f.arguments)
    (hr : r ∈ (g.fragment a.type).references) : Named g f r := by
  rw [TypeGraph.references_fragment] at hr
  exact ⟨_, List.mem_cons_of_mem _ (List.mem_map_of_mem ha), hr⟩

theorem SchemaOf.named (h : SchemaOf g f s) (hr : r ∈ s.references) : Named g f r := by
  cases h with
  | answer => exact ⟨_, List.mem_cons_self, TypeGraph.references_fragment g f.type ▸ hr⟩
  | argument ha => exact named_of_argument ha hr
  | body =>
      rw [Fragment.references_eq] at hr
      obtain ⟨p, hp, hr⟩ := List.mem_flatMap.1 ((List.mem_append.1 hr).resolve_right nofun)
      obtain ⟨a, ha, rfl | ⟨text, rfl⟩⟩ := exists_argument_of_mem_parts hp
      · exact named_of_argument ha hr
      · rw [Fragment.references_described] at hr
        exact named_of_argument ha hr
  | id =>
      rw [Fragment.references_string] at hr
      cases hr
  | stream text =>
      rw [Fragment.references_described, Fragment.references_string] at hr
      cases hr

theorem named_of_mem_references (ho : ∀ s ∈ o.schemas, SchemaOf g f s) (hr : r ∈ o.references) :
    Named g f r := by
  obtain ⟨s, hs, hr⟩ := List.mem_flatMap.1 hr
  exact (ho s hs).named hr

theorem references_resourceList (p : ResourcePattern) :
    (resourceList p).operation.references = [Fragment.componentPrefix ++ p.target] := by
  simp [Operation.references, schemas_resourceList, Fragment.references_array,
    Fragment.references_referTo]

theorem references_resourceItem (p : ResourcePattern) :
    (resourceItem p).operation.references = [Fragment.componentPrefix ++ p.target] := by
  simp [Operation.references, schemas_resourceItem, Fragment.references_string,
    Fragment.references_referTo]

theorem references_memberEndpoint (rules : InflectionRules) (owner : String) (f : Field) :
    (memberEndpoint rules owner f).operation.references =
      [Fragment.componentPrefix ++ f.type.innermost] := by
  simp [Operation.references, schemas_memberEndpoint, Fragment.references_string,
    Fragment.references_array, Fragment.references_referTo]

/-! ## Bounds -/

theorem SchemaOf.bounds_eq_nil (h : SchemaOf g f s) : s.bounds = [] := by
  cases h with
  | answer => exact g.bounds_fragment f.type
  | argument _ => exact g.bounds_fragment _
  | body =>
      have hparts : (bodySchema g f.arguments).parts.flatMap Fragment.bounds = [] := by
        refine List.flatMap_eq_nil_iff.2 fun p hp => ?_
        obtain ⟨a, -, rfl | ⟨text, rfl⟩⟩ := exists_argument_of_mem_parts hp
        · exact g.bounds_fragment a.type
        · rw [Fragment.bounds_described, g.bounds_fragment]
      rw [Fragment.bounds_eq, hparts]
      rfl
  | id => exact Fragment.bounds_string
  | stream text => rw [Fragment.bounds_described, Fragment.bounds_string]

theorem bounds_eq_nil (ho : ∀ s ∈ o.schemas, SchemaOf g f s) : o.bounds = [] :=
  List.flatMap_eq_nil_iff.2 fun s hs => (ho s hs).bounds_eq_nil

/-- No operation sets bounds. -/
theorem bounds_of_mem_written (hg : g.Lawful) (he : e ∈ written g options) :
    e.operation.bounds = [] := by
  obtain ⟨s, pl, hemitted⟩ := (mem_written_iff hg).1 he
  cases hemitted with
  | list _ =>
      simp [Operation.bounds, schemas_resourceList, Fragment.bounds_array, Fragment.bounds_referTo]
  | item _ _ =>
      simp [Operation.bounds, schemas_resourceItem, Fragment.bounds_string, Fragment.bounds_referTo]
  | query _ => exact bounds_eq_nil fun _ => schemaOf_queryOperation
  | member _ _ _ _ _ =>
      simp [Operation.bounds, schemas_memberEndpoint, Fragment.bounds_string, Fragment.bounds_array,
        Fragment.bounds_referTo]
  | change _ _ _ _ _ => exact bounds_eq_nil fun _ => schemaOf_changeResource
  | mutation _ => exact bounds_eq_nil fun _ => schemaOf_mutationOperation
  | stream _ _ => exact bounds_eq_nil fun _ => schemaOf_subscriptionOperation

end Endpoint

end GraphRest
