import GraphRest.Proofs.Conversion.Finished
import GraphRest.Proofs.Conversion.Mapping
import GraphRest.Proofs.Endpoint.Origin
import GraphRest.Proofs.Resource.Patterns

/-!
# What a document says that fields return

A query of its own and every mutation answer with what the type of the field is mapped to. Resources and
members answer with a type made up from a name, which may differ from the type of the field.
-/

namespace GraphRest

open Sdl Conversion

/-- What an operation answers with in JSON. -/
def Operation.answer? (o : Operation) : Option Fragment :=
  ((o.responses.get? "200").bind (·.content.get? Endpoint.jsonMediaType)).bind MediaType.schema

namespace Endpoint

/-- An endpoint shows the type of its field as it is. -/
inductive Direct (g : TypeGraph) (options : Options) (f : Field) : Endpoint → Prop where
  | query : (∀ p ∈ patternsOf g options, f.name ∉ consumedQueries p) →
      Direct g options f (queryEndpoint g f)
  | mutation : Direct g options f (mutationEndpoint g f)
  | change {p kind} : p ∈ patternsOf g options → Direct g options f (changeResource g p kind f)

/-- An endpoint shows a type that is made up from the type of a resource or that of the elements of a
member. -/
inductive MadeUp (g : TypeGraph) (options : Options) (f : Field) : Endpoint → TypeRef → Prop where
  | list {p} : p ∈ patternsOf g options → f.name = p.plural →
      MadeUp g options f (resourceList p) (.list (.named p.target false) false)
  | item {p} : p ∈ patternsOf g options → p.has .get = true → f.name = p.resource →
      MadeUp g options f (resourceItem p) (.named p.target false)
  | member {owner} : MadeUp g options f (memberEndpoint options.inflection owner f)
      (.list (.named f.type.innermost false) false)

variable {g : TypeGraph} {options : Options} {f : Field} {e : Endpoint} {t : TypeRef}

theorem answer?_of_responses {o : Operation} {schema : Fragment}
    (h : o.responses = jsonResponses schema) : o.answer? = some schema := by
  rw [Operation.answer?, h]
  simp [OrderedMap.get?, jsonResponses, Response.ofContent]

theorem answer?_stream : (subscriptionOperation g f).answer? = none := by
  rw [Operation.answer?, responses_subscriptionOperation]
  simp [OrderedMap.get?, streamResponses, Response.ofContent, eventStreamMediaType, jsonMediaType]

theorem BuiltFor.direct_or_madeUp (h : BuiltFor g options f e) :
    Direct g options f e ∨ (∃ t, MadeUp g options f e t) ∨ e = subscriptionEndpoint g f := by
  cases h with
  | list hp _ hn => exact Or.inr (Or.inl ⟨_, .list hp hn⟩)
  | item hp hget _ hgotten => exact Or.inr (Or.inl ⟨_, .item hp hget hgotten.2.1⟩)
  | query hf => exact Or.inl (.query (mem_remainingQueries_iff.1 hf).2.1)
  | member _ _ _ _ _ => exact Or.inr (Or.inl ⟨_, .member⟩)
  | change hp => exact Or.inl (.change hp)
  | mutation => exact Or.inl .mutation
  | stream => exact Or.inr (Or.inr rfl)

theorem Direct.answer? (h : Direct g options f e) :
    e.operation.answer? = some (g.fragment f.type) := by
  cases h with
  | query _ => exact answer?_of_responses responses_queryOperation
  | mutation => exact answer?_of_responses responses_mutationOperation
  | change _ => exact answer?_of_responses responses_changeResource

theorem MadeUp.answer? (h : MadeUp g options f e t)
    (ht : (g.role t.innermost).isReferenced = true) :
    e.operation.answer? = some (g.fragment t) := by
  have hnamed := TypeGraph.namedFragment_of_isReferenced ht
  cases h with
  | list _ _ =>
      rw [TypeGraph.fragment, TypeGraph.fragment]
      exact (answer?_of_responses rfl).trans (congrArg (some ∘ Fragment.array) hnamed.symm)
  | item _ _ _ => exact (answer?_of_responses rfl).trans (congrArg some hnamed.symm)
  | member => exact (answer?_of_responses rfl).trans (congrArg (some ∘ Fragment.array) hnamed.symm)

theorem MadeUp.answer?_iff (h : MadeUp g options f e t)
    (ht : (g.role t.innermost).isReferenced = true) :
    e.operation.answer? = some (g.fragment f.type) ↔ t.shape = f.type.shape := by
  rw [h.answer? ht, Option.some.injEq, TypeGraph.fragment_eq_iff ht]

end Endpoint

namespace Conversion

open Endpoint

variable {g : TypeGraph} {options : Options} {source : String}

theorem target_of_mem_patternsOf {p : ResourcePattern} (hp : p ∈ patternsOf g options) :
    ((queryFields g).filterMap (boundType? options.inflection p.resource)).getLast? =
      some p.target :=
  target_of_mem_detectResources (mem_patternsOf hp)

/-- An endpoint answers with what the type of its field is mapped to, or with what a made up type is
mapped to, and these agree just if the types do; a stream answers with no JSON. The type that those of
resources are made up from is the last one that the queries of the resource return. -/
theorem answers_of_fields (hg : TypeGraph.ofSource? source.toList = some g) :
    (∀ e ∈ written g options, ∀ f, e.origin.field? g = some f →
      (Direct g options f e ∧ e.operation.answer? = some (g.fragment f.type)) ∨
      (∃ t, MadeUp g options f e t ∧ ((g.role t.innermost).isReferenced = true →
        e.operation.answer? = some (g.fragment t) ∧
        (e.operation.answer? = some (g.fragment f.type) ↔ t.shape = f.type.shape))) ∨
      (e = subscriptionEndpoint g f ∧ e.operation.answer? = none)) ∧
    (∀ p ∈ patternsOf g options,
      ((queryFields g).filterMap (boundType? options.inflection p.resource)).getLast? =
        some p.target) := by
  have hlawful := TypeGraph.lawful_of_ofSource? hg
  refine ⟨?_, fun p hp => target_of_mem_patternsOf hp⟩
  intro e he f hf
  rcases (builtFor_of_mem_written hlawful he hf).direct_or_madeUp with h | ⟨t, h⟩ | rfl
  · exact Or.inl ⟨h, h.answer?⟩
  · exact Or.inr (Or.inl ⟨t, h, fun ht => ⟨h.answer? ht, h.answer?_iff ht⟩⟩)
  · exact Or.inr (Or.inr ⟨rfl, answer?_stream⟩)

/-- A resource with a list of another type, one whose item is a list of lists, and a member that is a
list of lists. -/
def reshaped : String :=
  "type Query \x7b users: [Pet] user(id: ID): User pets: [Pet] pet(id: ID): [[Pet]] \x7d " ++
  "type Mutation \x7b createUser: User createPet: Pet \x7d " ++
  "type User \x7b grid: [[Pet]] \x7d type Pet \x7b id: ID \x7d"

/-- What tells two fragments apart. -/
def outline (f : Fragment) : Option PrimitiveType × Option (Option PrimitiveType) × List String :=
  (f.type, f.items.map Fragment.type, f.references)

/-- Whether an answer has another outline than the type of the field. -/
def isMisshapen (g : TypeGraph) (e : Endpoint) : Bool :=
  e.operation.answer?.map outline ≠ (e.origin.field? g).map fun f => outline (g.fragment f.type)

theorem reshaped_graph : ∃ g, TypeGraph.ofSource? reshaped.toList = some g ∧
    (∃ e ∈ written g {}, e.origin = .mutation "createUser" ∧ (e.origin.field? g).isSome = true) ∧
    ∀ r ∈ ["/users", "/pets/\x7bid\x7d", "/users/\x7bid\x7d/grid"], ∃ e ∈ written g {},
      e.slot = (r, .get) ∧ (e.origin.field? g).isSome = true ∧ e.operation.answer?.isSome = true ∧
        isMisshapen g e = true :=
  exists_graph reshaped _ (by decide +kernel)

theorem reshaped_creation_answers : ∃ g, TypeGraph.ofSource? reshaped.toList = some g ∧
    ∃ e ∈ written g {}, e.origin = .mutation "createUser" ∧ ∃ f, e.origin.field? g = some f ∧
      e.operation.answer? = some (g.fragment f.type) := by
  obtain ⟨g, hg, ⟨e, he, ho, hf⟩, -⟩ := reshaped_graph
  obtain ⟨f, hf⟩ := Option.isSome_iff_exists.1 hf
  refine ⟨g, hg, e, he, ho, f, hf, ?_⟩
  rcases (answers_of_fields hg).1 e he f hf with ⟨-, h⟩ | ⟨t, h, -⟩ | ⟨h, -⟩
  · exact h
  · cases h <;> cases ho
  · rw [h] at ho
    cases ho

/-- Neither the list, nor the item, nor the member answers with what the type of its field is mapped
to. -/
theorem reshaped_answers_differ : ∃ g, TypeGraph.ofSource? reshaped.toList = some g ∧
    ∀ r ∈ ["/users", "/pets/\x7bid\x7d", "/users/\x7bid\x7d/grid"], ∃ e ∈ written g {},
      e.slot = (r, .get) ∧ ∃ f, e.origin.field? g = some f ∧
        ∃ schema, e.operation.answer? = some schema ∧ schema ≠ g.fragment f.type := by
  obtain ⟨g, hg, -, h⟩ := reshaped_graph
  refine ⟨g, hg, fun r hr => ?_⟩
  obtain ⟨e, he, hs, hfield, hanswer, hne⟩ := h r hr
  obtain ⟨f, hf⟩ := Option.isSome_iff_exists.1 hfield
  obtain ⟨schema, hschema⟩ := Option.isSome_iff_exists.1 hanswer
  refine ⟨e, he, hs, f, hf, schema, hschema, ?_⟩
  rintro rfl
  rw [isMisshapen, hschema, hf] at hne
  exact of_decide_eq_true hne rfl

end Conversion

end GraphRest
