import GraphRest.Proofs.Conversion.Representation

/-!
# Which arguments a document keeps

Every endpoint takes all arguments of its field, as parameters or in its body, but for the list of a
resource: that one takes nothing.
-/

namespace GraphRest

open Sdl Conversion

/-! ## What an operation takes -/

/-- The names of the properties of a JSON body. -/
def Operation.bodyKeys (o : Operation) : List String :=
  ((o.requestBody.bind (·.content.get? Endpoint.jsonMediaType)).bind MediaType.schema).elim []
    fun schema => schema.properties.map Prod.fst

/-- The names under which an operation takes values: those of its parameters and of the properties of
its JSON body. -/
def Operation.inputs (o : Operation) : List String :=
  o.parameters.map Parameter.name ++ o.bodyKeys

namespace Endpoint

variable {g : TypeGraph} {options : Options} {f : Field} {a : InputValue} {e : Endpoint}

theorem mem_bodyKeys {o : Operation} (ho : o.requestBody = requestBody? g f.arguments)
    (ha : a ∈ f.arguments) : a.name ∈ o.bodyKeys := by
  have hsome : f.arguments.isEmpty = false := by
    cases hf : f.arguments with
    | nil => rw [hf] at ha; cases ha
    | cons _ _ => rfl
  rw [Operation.bodyKeys, ho, requestBody?, hsome]
  refine OrderedMap.mem_keys_ofList.2 ?_
  exact List.mem_map.2 ⟨_, List.mem_map_of_mem ha, rfl⟩

theorem mem_inputs_of_body {o : Operation} (ho : o.requestBody = requestBody? g f.arguments)
    (ha : a ∈ f.arguments) : a.name ∈ o.inputs :=
  List.mem_append_right _ (mem_bodyKeys ho ha)

theorem mem_inputs_of_parameters {o : Operation} {ps : List Parameter} (ho : o.parameters = ps)
    (ha : a.name ∈ ps.map Parameter.name) : a.name ∈ o.inputs :=
  List.mem_append_left _ (ho ▸ ha)

theorem name_eq_id (hf : takesOnlyId f = true) (ha : a ∈ f.arguments) : a.name = "id" := by
  have hnames : f.arguments.map InputValue.name = ["id"] := by simpa [takesOnlyId] using hf
  have hmem := List.mem_map_of_mem (f := InputValue.name) ha
  rw [hnames] at hmem
  exact List.mem_singleton.1 hmem

theorem mem_inputs_idInPath {o : Operation} (ho : o.parameters = [.idInPath])
    (hf : takesOnlyId f = true) (ha : a ∈ f.arguments) : a.name ∈ o.inputs :=
  mem_inputs_of_parameters ho (by rw [name_eq_id hf ha]; exact List.mem_cons_self)

/-! ## Kind by kind -/

theorem mem_inputs_query (ha : a ∈ f.arguments) : a.name ∈ (queryOperation g f).inputs := by
  refine mem_inputs_of_parameters parameters_queryOperation ?_
  rw [List.map_map]
  exact List.mem_map.2 ⟨a, ha, rfl⟩

theorem mem_inputs_mutation {fallback : Option String} (ha : a ∈ f.arguments) :
    a.name ∈ (mutationOperation g f fallback).inputs :=
  mem_inputs_of_body requestBody_mutationOperation ha

theorem mem_inputs_change {p : ResourcePattern} {kind : CrudOperation} (ha : a ∈ f.arguments) :
    a.name ∈ (changeResource g p kind f).operation.inputs := by
  cases kind with
  | update => exact mem_inputs_of_body requestBody_mutationOperation ha
  | delete =>
      simp only [changeResource, deletion]
      split
      · rename_i honly
        exact mem_inputs_idInPath rfl honly ha
      · exact mem_inputs_of_body requestBody_mutationOperation ha
  | _ => exact mem_inputs_mutation ha

theorem names_streamParameters (placed : Bool) (as : List InputValue) :
    (streamParameters g placed as).map Parameter.name = as.map InputValue.name := by
  induction as generalizing placed with
  | nil => rfl
  | cons a as ih =>
      rw [streamParameters]
      split
      · rw [List.map_cons, ih]; rfl
      · rw [List.map_cons, ih]; rfl

theorem mem_inputs_stream (ha : a ∈ f.arguments) : a.name ∈ (subscriptionOperation g f).inputs := by
  refine mem_inputs_of_parameters parameters_subscriptionOperation ?_
  rw [names_streamParameters]
  exact List.mem_map_of_mem ha

theorem inputs_resourceList (p : ResourcePattern) : (resourceList p).operation.inputs = [] := rfl

/-- Only the lists of resources leave arguments out. -/
theorem BuiltFor.mem_inputs (h : BuiltFor g options f e) (hroot : e.origin.isRoot = true)
    (hlist : ∀ p ∈ patternsOf g options, f.name = p.plural → f ∈ queryFields g →
      f.arguments = []) (ha : a ∈ f.arguments) : a.name ∈ e.operation.inputs := by
  cases h with
  | list hp hf hn =>
      rw [hlist _ hp hn hf] at ha
      cases ha
  | item _ _ _ hgotten =>
      have honly : takesOnlyId f = true := (Bool.and_eq_true_iff.1 hgotten.2.2).1
      exact mem_inputs_idInPath rfl honly ha
  | query => exact mem_inputs_query ha
  | member _ _ _ _ _ => cases hroot
  | change _ => exact mem_inputs_change ha
  | mutation => exact mem_inputs_mutation ha
  | stream => exact mem_inputs_stream ha

end Endpoint

namespace Conversion

open Endpoint

variable {g : TypeGraph} {options : Options} {source : String}

/-! ## Arguments of root fields -/

theorem exists_of_root (hg : g.Lawful) {o : Origin} {f : Field} (ho : o.field? g = some f)
    (hroot : o.isRoot = true) (hr : isReservedName f.name = false) :
    ∃ e ∈ written g options, e.origin = o := by
  refine exists_of_fieldOf hg (f := f) ?_
  cases o with
  | query n =>
      obtain ⟨hf, rfl⟩ := (field?_query_iff hg).1 ho
      exact .query hf hr
  | mutation n =>
      obtain ⟨hf, rfl⟩ := (field?_mutation_iff hg).1 ho
      exact .mutation hf hr
  | subscription n =>
      obtain ⟨hf, rfl⟩ := (field?_subscription_iff hg).1 ho
      exact .subscription hf hr
  | member owner n => cases hroot

/-- Every root field has an endpoint, and each of its endpoints takes all of its arguments, just if no
query with arguments has become the list of a resource. -/
theorem arguments_survive_iff (hg : TypeGraph.ofSource? source.toList = some g) :
    (∀ o f, o.field? g = some f → o.isRoot = true → isReservedName f.name = false →
      (∃ e ∈ written g options, e.origin = o) ∧
      ∀ e ∈ written g options, e.origin = o → ∀ a ∈ f.arguments, a.name ∈ e.operation.inputs) ↔
    ∀ p ∈ patternsOf g options, ∀ f ∈ queryFields g, f.name = p.plural → f.arguments = [] := by
  have hlawful := TypeGraph.lawful_of_ofSource? hg
  constructor
  · intro h p hp f hf hn
    obtain ⟨f', hf', hn', hr, -⟩ := (supported_of_mem_patternsOf hp).listed
    obtain rfl : f' = f := hlawful.eq_of_name_eq hf' hf (hn'.trans hn.symm)
    have hfield : (Origin.query p.plural).field? g = some f' :=
      (field?_query_iff hlawful).2 ⟨hf', hn⟩
    have hlist : resourceList p ∈ written g options :=
      (mem_written_iff hlawful).2 ⟨_, _, .list hp⟩
    have hcarried := (h _ f' hfield rfl hr).2 _ hlist rfl
    rw [inputs_resourceList] at hcarried
    exact List.eq_nil_iff_forall_not_mem.2 fun a ha => List.not_mem_nil (hcarried a ha)
  · intro hlists o f hf hroot hr
    refine ⟨exists_of_root hlawful hf hroot hr, ?_⟩
    rintro e he rfl a ha
    have hbuilt := builtFor_of_mem_written hlawful he hf
    exact hbuilt.mem_inputs hroot (fun p hp hn hq => hlists p hp f hq hn) ha

/-- A resource whose item and mutations take arguments, and a search beside it. -/
def searchable : String :=
  "type Query \x7b users: [User!]! user(id: ID!): User searchUsers(term: String!): [User!]! \x7d " ++
  "type Mutation \x7b createUser(name: String!): User \x7d type User \x7b id: ID! \x7d"

theorem searchable_keeps_arguments : ∃ g, TypeGraph.ofSource? searchable.toList = some g ∧
    ∀ o f, o.field? g = some f → o.isRoot = true → isReservedName f.name = false →
      (∃ e ∈ written g {}, e.origin = o) ∧
      ∀ e ∈ written g {}, e.origin = o → ∀ a ∈ f.arguments, a.name ∈ e.operation.inputs := by
  obtain ⟨g, hg, hlists⟩ := exists_graph searchable
    (fun g => ∀ p ∈ patternsOf g {}, ∀ f ∈ queryFields g, f.name = p.plural →
      f.arguments.map InputValue.name = []) (by decide +kernel)
  refine ⟨g, hg, (arguments_survive_iff hg).2 fun p hp f hf hn => ?_⟩
  exact List.map_eq_nil_iff.1 (hlists p hp f hf hn)

/-- A resource whose list can be limited. -/
def limited : String :=
  "type Query \x7b users(limit: Int): [User!]! \x7d " ++
  "type Mutation \x7b createUser(name: String): User \x7d type User \x7b id: ID! \x7d"

/-- The limit of the list is lost. -/
theorem limited_loses_argument : ∃ g, TypeGraph.ofSource? limited.toList = some g ∧
    ∃ e ∈ written g {}, e.origin = .query "users" ∧ ∃ f, e.origin.field? g = some f ∧
      isReservedName f.name = false ∧ ∃ a ∈ f.arguments, a.name ∉ e.operation.inputs := by
  obtain ⟨g, hg, e, he, ho, hlost⟩ := exists_graph limited
    (fun g => ∃ e ∈ written g {}, e.origin = .query "users" ∧
      ∃ f ∈ queryFields g, f.name = "users" ∧ isReservedName f.name = false ∧
        ∃ a ∈ f.arguments, a.name ∉ e.operation.inputs) (by decide +kernel)
  obtain ⟨f, hf, hn, hr, hlost⟩ := hlost
  refine ⟨g, hg, e, he, ho, f, ?_, hr, hlost⟩
  rw [ho]
  exact (field?_query_iff (TypeGraph.lawful_of_ofSource? hg)).2 ⟨hf, hn⟩

end Conversion

end GraphRest
