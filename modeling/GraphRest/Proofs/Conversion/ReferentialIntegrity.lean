import GraphRest.Proofs.Conversion.ComponentReferences
import GraphRest.Proofs.Conversion.Finished
import GraphRest.Proofs.Endpoint.Schemas
import GraphRest.Proofs.Resource.Patterns

/-!
# References between operations and components

Whatever is mapped from a type is referred to only if it has a component. Lists and items of resources,
members and unions refer to names without asking for their roles, so it is on those that the references
of a document depend.
-/

namespace GraphRest

open Sdl

/-- The members of a union. -/
def Sdl.Body.unionMembers : Body → List String
  | .union members => members
  | _ => []

/-- The fields of an object type. -/
def Sdl.Body.objectFields : Body → List Field
  | .object _ fields => fields
  | _ => []

/-- Every union lists declared object types only. -/
def Sdl.TypeGraph.UnionsOfObjects (g : TypeGraph) : Prop :=
  ∀ d ∈ g.types, ∀ m ∈ d.body.unionMembers, ∃ d' ∈ g.types, d'.name = m ∧ d'.body.kind = .object

instance (g : TypeGraph) : Decidable g.UnionsOfObjects := by
  unfold TypeGraph.UnionsOfObjects
  infer_instance

namespace Conversion

open Endpoint

/-- What the references of a document that are made up from names depend on: unions list no root, the
resources that stand in it are of types with a component, and the members that stand in it have
elements of another type than a root. -/
structure RefersToComponents (g : TypeGraph) (options : Options) (doc : Document) : Prop where
  unions : ∀ d ∈ g.types, isExposed g d = true → ∀ m ∈ d.body.unionMembers,
    g.roots.contains m = false
  lists : ∀ p ∈ patternsOf g options, (resourceList p).StandsIn options doc →
    (g.role p.target).isReferenced = true
  items : ∀ p ∈ patternsOf g options, p.has .get = true → (resourceItem p).StandsIn options doc →
    (g.role p.target).isReferenced = true
  members : ∀ d ∈ g.types, isExposed g d = true → ∀ f ∈ d.body.objectFields,
    isCollection g f = true →
    (memberEndpoint options.inflection d.name f).StandsIn options doc →
    g.roots.contains f.type.innermost = false

variable {g : TypeGraph} {options : Options} {source : String} {c : Conversion} {n r : String}

/-! ## Names that are not reserved -/

theorem unreserved_target (hu : g.Unreserved) (hg : g.Lawful) {p : ResourcePattern}
    (hp : p ∈ patternsOf g options) : isReservedName p.target = false := by
  obtain ⟨f, hf, ht⟩ := exists_innermost_eq_target (mem_patternsOf hp)
  rw [← ht]
  exact hu.rootFields hg (by simp) hf _ List.mem_cons_self

theorem unreserved_of_mem_objectFields (hu : g.Unreserved) {d : TypeDefinition} (hd : d ∈ g.types)
    {f : Field} (hf : f ∈ d.body.objectFields) : ∀ m ∈ f.namedTypes, isReservedName m = false := by
  intro m hm
  refine hu.body hd ?_
  cases hb : d.body with
  | object is fs =>
      rw [hb] at hf
      exact List.mem_append_right _ (List.mem_flatMap.2 ⟨f, hf, hm⟩)
  | _ => rw [hb] at hf; cases hf

theorem unreserved_of_mem_unionMembers (hu : g.Unreserved) {d : TypeDefinition} (hd : d ∈ g.types)
    (hn : n ∈ d.body.unionMembers) : isReservedName n = false := by
  refine hu.body hd ?_
  cases hb : d.body with
  | union ms => rwa [hb] at hn
  | _ => rw [hb] at hn; cases hn

/-! ## References that lead to a component -/

/-- A reference leads to a component. -/
def Resolves (doc : Document) (r : String) : Prop :=
  ∃ n ∈ doc.components.keys, r = Fragment.componentPrefix ++ n

theorem resolves_iff {doc : Document} :
    Resolves doc (Fragment.componentPrefix ++ n) ↔ n ∈ doc.components.keys := by
  constructor
  · rintro ⟨m, hm, heq⟩
    rwa [(String.append_right_inj _).1 heq]
  · exact fun hn => ⟨n, hn, rfl⟩

section

variable (hg : TypeGraph.ofSource? source.toList = some g) (hc : convert? options source = some c)

include hg hc

theorem resolves_name_iff (hr : isReservedName n = false) :
    Resolves c.document (Fragment.componentPrefix ++ n) ↔ (g.role n).isReferenced = true := by
  rw [resolves_iff, components_document hg hc]
  exact mem_keys_components_iff_isReferenced (TypeGraph.lawful_of_ofSource? hg) hr

/-- What types are mapped to leads to components. -/
theorem resolves_of_namedFragment (hr : isReservedName n = false)
    (h : r ∈ (g.namedFragment n).references) : Resolves c.document r := by
  rw [TypeGraph.references_namedFragment] at h
  split at h
  · rename_i href
    rw [List.mem_singleton.1 h]
    exact (resolves_name_iff hg hc hr).2 href
  · cases h

theorem resolves_of_named {f : Field} (hf : ∀ m ∈ f.namedTypes, isReservedName m = false)
    (h : Named g f r) : Resolves c.document r := by
  obtain ⟨n, hn, h⟩ := h
  exact resolves_of_namedFragment hg hc (hf n hn) h

theorem resolves_target_iff (hu : g.Unreserved) {p : ResourcePattern}
    (hp : p ∈ patternsOf g options) : Resolves c.document (Fragment.componentPrefix ++ p.target) ↔
      (g.role p.target).isReferenced = true :=
  resolves_name_iff hg hc (unreserved_target hu (TypeGraph.lawful_of_ofSource? hg) hp)

theorem resolves_member_iff (hu : g.Unreserved) {d : TypeDefinition} (hd : d ∈ g.types) {f : Field}
    (hf : f ∈ d.body.objectFields) (hcoll : isCollection g f = true) :
    Resolves c.document (Fragment.componentPrefix ++ f.type.innermost) ↔
      g.roots.contains f.type.innermost = false := by
  rw [resolves_name_iff hg hc (unreserved_of_mem_objectFields hu hd hf _ List.mem_cons_self)]
  have hscalar : (g.role f.type.innermost).isScalar = false := by
    simpa using (Bool.and_eq_true_iff.1 hcoll).2
  exact TypeGraph.isReferenced_iff_not_root hscalar

theorem resolves_unionMember_iff (hu : g.Unreserved) (hunions : g.UnionsOfObjects)
    {d : TypeDefinition} (hd : d ∈ g.types) (hn : n ∈ d.body.unionMembers) :
    Resolves c.document (Fragment.componentPrefix ++ n) ↔ g.roots.contains n = false := by
  have hlawful := TypeGraph.lawful_of_ofSource? hg
  rw [resolves_name_iff hg hc (unreserved_of_mem_unionMembers hu hd hn), TypeGraph.isReferenced_iff]
  constructor
  · exact fun h => h.2.1
  · intro hroot
    obtain ⟨d', hd', rfl, hk⟩ := hunions d hd n hn
    refine ⟨hlawful.scalarFragment?_name hd', hroot, d', ?_, by rw [hk]; nofun⟩
    exact hlawful.type?_eq_some_iff.2 ⟨List.mem_append_left _ hd', rfl⟩

/-! ## References of the document -/

/-- The reference of an endpoint that stands in a document is one of the document. -/
theorem mem_references_of_standsIn {e : Endpoint} (he : e ∈ written g options)
    (hstands : e.StandsIn options c.document) (hr : r ∈ e.operation.references) :
    r ∈ c.document.references :=
  Document.mem_references.2 (Or.inl ⟨_, _, _,
    (mem_operations_document hg hc).2 ⟨e, he, hstands, rfl, rfl, rfl⟩, hr⟩)

theorem mem_references_of_unionMember {d : TypeDefinition} (hd : d ∈ g.types)
    (hx : isExposed g d = true) (hn : n ∈ d.body.unionMembers) :
    Fragment.componentPrefix ++ n ∈ c.document.references := by
  refine Document.mem_references.2 (Or.inr ?_)
  rw [components_document hg hc]
  cases hb : d.body with
  | union ms =>
      rw [hb] at hn
      obtain ⟨f, hf⟩ : ∃ f, component? g options.inflection d = some f := by
        rw [component?, hb]
        exact ⟨_, rfl⟩
      refine ⟨(d.name, f), mem_components_iff.2 ⟨d, hd, hx, hf, rfl⟩, ?_⟩
      rw [Fragment.references_eq, parts_component hf, hb]
      refine List.mem_append_left _ (List.mem_flatMap.2 ⟨_, List.mem_map_of_mem hn, ?_⟩)
      rw [Fragment.references_referTo]
      exact List.mem_singleton_self _
  | _ => rw [hb] at hn; cases hn

/-- A component refers to components, if no union lists a root. -/
theorem resolves_of_component (hu : g.Unreserved) (hunions : g.UnionsOfObjects)
    (hroots : ∀ d ∈ g.types, isExposed g d = true → ∀ m ∈ d.body.unionMembers,
      g.roots.contains m = false)
    {f : Fragment} (hx : (n, f) ∈ c.document.components) (h : r ∈ f.references) :
    Resolves c.document r := by
  rw [components_document hg hc] at hx
  obtain ⟨d, hd, he, hf, -⟩ := mem_components_iff.1 hx
  rcases references_component hf h with ⟨ms, hb, m, hm, rfl⟩ | ⟨n, hn, h⟩
  · have hm : m ∈ d.body.unionMembers := by rwa [hb]
    exact (resolves_unionMember_iff hg hc hu hunions hd hm).2 (hroots d hd he m hm)
  · exact resolves_of_namedFragment hg hc (hu.body hd hn) h

/-- An endpoint that stands in the document refers to components, if those with a made up answer do. -/
theorem resolves_of_endpoint (hu : g.Unreserved)
    (hrefers : RefersToComponents g options c.document) {e : Endpoint} (he : e ∈ written g options)
    (hstands : e.StandsIn options c.document) (h : r ∈ e.operation.references) :
    Resolves c.document r := by
  have hlawful := TypeGraph.lawful_of_ofSource? hg
  obtain ⟨s, pl, hemitted⟩ := (mem_written_iff hlawful).1 he
  -- Only lists, items and members need `hrefers`; all others refer to what types are mapped to.
  cases hemitted with
  | list hp =>
      rw [references_resourceList] at h
      rw [List.mem_singleton.1 h]
      exact (resolves_target_iff hg hc hu hp).2 (hrefers.lists _ hp hstands)
  | item hp hget =>
      rw [references_resourceItem] at h
      rw [List.mem_singleton.1 h]
      exact (resolves_target_iff hg hc hu hp).2 (hrefers.items _ hp hget hstands)
  | query hf =>
      have hf := (mem_remainingQueries_iff.1 hf).1
      exact resolves_of_named hg hc (hu.rootFields hlawful (by simp) hf)
        (named_of_mem_references (fun _ => schemaOf_queryOperation) h)
  | @member d is fs f hd hx hb hf hcoll =>
      rw [references_memberEndpoint] at h
      rw [List.mem_singleton.1 h]
      have hf : f ∈ d.body.objectFields := by rwa [hb]
      exact (resolves_member_iff hg hc hu hd hf hcoll).2 (hrefers.members d hd hx f hf hcoll hstands)
  | change _ _ _ hf _ =>
      exact resolves_of_named hg hc (hu.rootFields hlawful (by simp) hf)
        (named_of_mem_references (fun _ => schemaOf_changeResource) h)
  | mutation hf =>
      have hf := (mem_remainingMutations_iff.1 hf).1
      exact resolves_of_named hg hc (hu.rootFields hlawful (by simp) hf)
        (named_of_mem_references (fun _ => schemaOf_mutationOperation) h)
  | stream hf _ =>
      exact resolves_of_named hg hc (hu.rootFields hlawful (by simp) hf)
        (named_of_mem_references (fun _ => schemaOf_subscriptionOperation) h)

theorem refersToComponents_of_resolves (hu : g.Unreserved) (hunions : g.UnionsOfObjects)
    (h : ∀ r ∈ c.document.references, Resolves c.document r) :
    RefersToComponents g options c.document := by
  have hlawful := TypeGraph.lawful_of_ofSource? hg
  constructor
  · intro d hd hx m hm
    exact (resolves_unionMember_iff hg hc hu hunions hd hm).1
      (h _ (mem_references_of_unionMember hg hc hd hx hm))
  · intro p hp hstands
    have he : resourceList p ∈ written g options := (mem_written_iff hlawful).2 ⟨_, _, .list hp⟩
    refine (resolves_target_iff hg hc hu hp).1 (h _ (mem_references_of_standsIn hg hc he hstands ?_))
    rw [references_resourceList]
    exact List.mem_singleton_self _
  · intro p hp hget hstands
    have he : resourceItem p ∈ written g options :=
      (mem_written_iff hlawful).2 ⟨_, _, .item hp hget⟩
    refine (resolves_target_iff hg hc hu hp).1 (h _ (mem_references_of_standsIn hg hc he hstands ?_))
    rw [references_resourceItem]
    exact List.mem_singleton_self _
  · intro d hd hx f hf hcoll hstands
    have he : memberEndpoint options.inflection d.name f ∈ written g options := by
      cases hb : d.body with
      | object is fs =>
          rw [hb] at hf
          exact (mem_written_iff hlawful).2 ⟨_, _, .member hd hx hb hf hcoll⟩
      | _ => rw [hb] at hf; cases hf
    refine (resolves_member_iff hg hc hu hd hf hcoll).1
      (h _ (mem_references_of_standsIn hg hc he hstands ?_))
    rw [references_memberEndpoint]
    exact List.mem_singleton_self _

theorem resolves_of_refersToComponents (hu : g.Unreserved) (hunions : g.UnionsOfObjects)
    (hrefers : RefersToComponents g options c.document) (hr : r ∈ c.document.references) :
    Resolves c.document r := by
  rcases Document.mem_references.1 hr with ⟨p, m, o, ho, h⟩ | ⟨⟨n, f⟩, hx, h⟩
  · obtain ⟨e, he, hstands, -, -, rfl⟩ := (mem_operations_document hg hc).1 ho
    exact resolves_of_endpoint hg hc hu hrefers he hstands h
  · exact resolves_of_component hg hc hu hunions hrefers.unions hx h

end

/-- Every reference in the tree of a document leads to one of its components just if those that are made
up from names do. -/
theorem refs_resolve_iff (hg : TypeGraph.ofSource? source.toList = some g)
    (hc : convert? options source = some c) (hu : g.Unreserved) (hunions : g.UnionsOfObjects) :
    (∀ r ∈ c.document.tree.refs, ∃ n ∈ c.document.components.keys,
      r = Fragment.componentPrefix ++ n) ↔ RefersToComponents g options c.document := by
  simp only [Document.mem_refs_tree]
  constructor
  · exact refersToComponents_of_resolves hg hc hu hunions
  · exact fun hrefers r hr => resolves_of_refersToComponents hg hc hu hunions hrefers hr

/-- A union, an enum, a resource and a member. -/
def linked : String :=
  "type Query \x7b users: [User] find: Hit \x7d type Mutation \x7b createUser(pet: Pet): User \x7d " ++
  "type User \x7b role: Role friends: [User] \x7d union Hit = User enum Role \x7b ADMIN \x7d " ++
  "input Pet \x7b name: String \x7d"

theorem linked_refs_resolve : ∃ g c, TypeGraph.ofSource? linked.toList = some g ∧
    convert? {} linked = some c ∧ g.Unreserved ∧ g.UnionsOfObjects ∧
    ∀ r ∈ c.document.tree.refs, ∃ n ∈ c.document.components.keys,
      r = Fragment.componentPrefix ++ n := by
  obtain ⟨g, hg, hu, hunions, hroots, htargets, hmembers⟩ := exists_graph linked
    (fun g => g.Unreserved ∧ g.UnionsOfObjects ∧
      (∀ d ∈ g.types, ∀ m ∈ d.body.unionMembers, g.roots.contains m = false) ∧
      (∀ p ∈ patternsOf g {}, (g.role p.target).isReferenced = true) ∧
      ∀ d ∈ g.types, isExposed g d = true → ∀ f ∈ d.body.objectFields,
        g.roots.contains f.type.innermost = false) (by decide +kernel)
  have hc := convert?_of_ofSource? {} hg
  refine ⟨g, _, hg, hc, hu, hunions, (refs_resolve_iff hg hc hu hunions).2 ?_⟩
  constructor
  · exact fun d hd _ => hroots d hd
  · exact fun p hp _ => htargets p hp
  · exact fun p hp _ _ => htargets p hp
  · exact fun d hd hx f hf _ _ => hmembers d hd hx f hf

/-- A resource whose list is one of a scalar. -/
def listOfScalars : String :=
  "type Query \x7b names: [String!]! \x7d type Mutation \x7b createName(name: String!): String \x7d"

/-- The list refers to a component of the scalar, which does not exist. -/
theorem listOfScalars_refs_dangle : ∃ g c, TypeGraph.ofSource? listOfScalars.toList = some g ∧
    convert? {} listOfScalars = some c ∧ g.Unreserved ∧ g.UnionsOfObjects ∧
    ∃ r ∈ c.document.tree.refs, ∀ n ∈ c.document.components.keys,
      r ≠ Fragment.componentPrefix ++ n := by
  obtain ⟨g, hg, hu, hunions, hdangle⟩ := exists_graph listOfScalars
    (fun g => g.Unreserved ∧ g.UnionsOfObjects ∧
      ∃ r ∈ (ofGraph {} listOfScalars g).document.tree.refs,
        ∀ n ∈ (ofGraph {} listOfScalars g).document.components.keys,
          r ≠ Fragment.componentPrefix ++ n) (by decide +kernel)
  exact ⟨g, _, hg, convert?_of_ofSource? {} hg, hu, hunions, hdangle⟩

end Conversion

end GraphRest
