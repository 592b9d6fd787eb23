import GraphRest.Proofs.Conversion.Arguments
import GraphRest.Proofs.Conversion.Properties
import GraphRest.Proofs.Endpoint.Taken

/-!
# Which deprecations a document keeps

A deprecated field has a deprecated operation and a deprecated property, but for two kinds of fields:
the queries of a resource, whose operations are built from the resource, and the members of structured
types, whose properties are plain identifiers.
-/

namespace GraphRest

open Sdl Conversion

variable {g : TypeGraph} {options : Options} {d : TypeDefinition}

/-! ## Properties -/

theorem deprecated_of_scalar {n : String} {f : Fragment} (h : scalarFragment? n = some f) :
    f.deprecated = false := by
  unfold scalarFragment? at h
  split at h <;> cases h <;> rfl

/-- Types are not deprecated, only the fields that have them. -/
theorem Sdl.TypeGraph.deprecated_fragment (g : TypeGraph) (t : TypeRef) :
    (g.fragment t).deprecated = false := by
  cases t with
  | list _ _ => rfl
  | named n _ =>
      rw [fragment, namedFragment]
      cases hs : scalarFragment? n with
      | some f => exact deprecated_of_scalar hs
      | none => dsimp only; cases g.role n <;> rfl

/-- What the declaration of a scalar says never deprecates its uses. -/
theorem any_isDeprecation_specifications (g : TypeGraph) (n : String) :
    (specifications g n).any Notice.isDeprecation = false := by
  unfold specifications
  split
  · rw [List.any_filter, List.any_eq_false]
    rintro (_ | _ | _) _ <;> simp [Notice.isDeprecation]
  · rfl

theorem deprecated_embeddedFragment (g : TypeGraph) (m : Member) :
    (embeddedFragment g m).deprecated = isDeprecated m.directives := by
  have hbare := g.deprecated_fragment m.type
  simp only [embeddedFragment, Notice.deprecated_noteAll, List.any_append,
    any_isDeprecation_specifications, Notice.any_isDeprecation_ofDirectives, Bool.or_false]
  cases nonEmpty m.description <;> simp [Fragment.described, hbare]

/-- Whether a type declares members. -/
def Sdl.Kind.hasMembers : Kind → Bool
  | .object => true
  | .interface => true
  | .input => true
  | _ => false

theorem exists_component_of_hasMembers (g : TypeGraph) (rules : InflectionRules)
    (h : d.body.kind.hasMembers = true) :
    ∃ f, component? g rules d = some f ∧ f.properties = properties g rules d.body.members := by
  unfold component? Body.members
  cases hb : d.body with
  | scalar => simp [hb, Body.kind, Kind.hasMembers] at h
  | enum _ => simp [hb, Body.kind, Kind.hasMembers] at h
  | union _ => simp [hb, Body.kind, Kind.hasMembers] at h
  | _ => exact ⟨_, rfl, rfl⟩

/-! ## Operations -/

namespace Endpoint

variable {f : Field} {e : Endpoint}

theorem BuiltFor.deprecated_eq (h : BuiltFor g options f e) (hroot : e.origin.isRoot = true)
    (hfree : ∀ n, e.origin = .query n → ¬ e.origin.Taken g options) :
    e.operation.deprecated = isDeprecated f.directives := by
  cases h with
  | list hp _ _ =>
      have hlist := (supported_of_mem_patternsOf hp).list
      exact absurd (taken_of_mem_consumedQueries hp (mem_consumedQueries_iff.2 (Or.inl ⟨hlist, rfl⟩)))
        (hfree _ rfl)
  | item hp hget _ _ =>
      exact absurd (taken_of_mem_consumedQueries hp (mem_consumedQueries_iff.2 (Or.inr ⟨hget, rfl⟩)))
        (hfree _ rfl)
  | query _ => exact deprecated_queryOperation
  | member _ _ _ _ _ => cases hroot
  | change _ => exact deprecated_changeResource
  | mutation => exact deprecated_mutationOperation
  | stream => exact deprecated_subscriptionOperation

end Endpoint

namespace Conversion

open Endpoint

variable {source : String} {c : Conversion}

/-- A root field that is no query of a resource has operations that are deprecated just if the field is.
So is the property of a member that is embedded; a reference is no more than an identifier. -/
theorem deprecations_kept (hg : TypeGraph.ofSource? source.toList = some g)
    (hc : convert? options source = some c) :
    (∀ (o : Origin) f, o.field? g = some f → o.isRoot = true →
      (isReservedName f.name = false → ∃ e ∈ written g options, e.origin = o) ∧
      ((∀ n, o = .query n → ¬ o.Taken g options) →
        ∀ e ∈ written g options, e.origin = o →
          e.operation.deprecated = isDeprecated f.directives)) ∧
    ∀ d ∈ g.types, d.body.kind.hasMembers = true → isExposed g d = true →
      ∃ component, c.document.components.get? d.name = some component ∧
        ∀ key m, IsLast (fun m => propertyKey g m = key) (retained g d.body.members) m →
          ∃ p, OrderedMap.get? key component.properties = some p ∧
            ((g.role m.type.innermost).isStructured = false →
              p.deprecated = isDeprecated m.directives) ∧
            ((g.role m.type.innermost).isStructured = true →
              p = identifierFragment options.inflection m) := by
  have hlawful := TypeGraph.lawful_of_ofSource? hg
  constructor
  · intro o f hf hroot
    refine ⟨exists_of_root hlawful hf hroot, ?_⟩
    rintro hfree e he rfl
    exact (builtFor_of_mem_written hlawful he hf).deprecated_eq hroot hfree
  · intro d hd hk hx
    obtain ⟨component, hcomponent, hproperties⟩ :=
      exists_component_of_hasMembers g options.inflection hk
    refine ⟨component, (get?_components_iff hg hc hd).2 ⟨hx, hcomponent⟩, fun key m hm => ?_⟩
    have hget : OrderedMap.get? key component.properties =
        some (propertyFragment g options.inflection m) := hproperties ▸ get?_properties hm
    refine ⟨_, hget, ?_, ?_⟩
    · intro hs
      rw [propertyFragment, hs]
      exact deprecated_embeddedFragment g m
    · intro hs
      rw [propertyFragment, hs]
      rfl

/-- A resource with a deprecated list, creation, text and reference, and a deprecated query beside it. -/
def retired : String :=
  "type Query \x7b users: [User!]! @deprecated version: String @deprecated \x7d " ++
  "type Mutation \x7b createUser(name: String!): User @deprecated \x7d " ++
  "type User \x7b id: ID! nickname: String @deprecated manager: User @deprecated \x7d"

theorem retired_keeps_deprecations : ∃ g c, TypeGraph.ofSource? retired.toList = some g ∧
    convert? {} retired = some c ∧
    (∃ e ∈ written g {}, e.origin = .query "version" ∧ e.operation.deprecated = true) ∧
    (∃ e ∈ written g {}, e.origin = .mutation "createUser" ∧ e.operation.deprecated = true) ∧
    ∃ component, c.document.components.get? "User" = some component ∧
      ∃ p, OrderedMap.get? "nickname" component.properties = some p ∧ p.deprecated = true := by
  obtain ⟨g, hg, ⟨hfree, f, hf, hfr, hfd⟩, ⟨m, hm, hmr, hmd⟩, d, hd, hn, hk, hx, hkey, hnickname⟩ :=
    exists_graph retired
      (fun g =>
        (¬ (Origin.query "version").Taken g {} ∧
          ∃ f, (Origin.query "version").field? g = some f ∧ isReservedName f.name = false ∧
            isDeprecated f.directives = true) ∧
        (∃ f, (Origin.mutation "createUser").field? g = some f ∧ isReservedName f.name = false ∧
          isDeprecated f.directives = true) ∧
        ∃ d ∈ g.types, d.name = "User" ∧ d.body.kind.hasMembers = true ∧ isExposed g d = true ∧
          (∃ m ∈ retained g d.body.members, propertyKey g m = "nickname") ∧
          ∀ m ∈ retained g d.body.members, propertyKey g m = "nickname" →
            (g.role m.type.innermost).isStructured = false ∧ isDeprecated m.directives = true)
      (by decide +kernel)
  have hc := convert?_of_ofSource? {} hg
  obtain ⟨hroots, hcomponents⟩ := deprecations_kept hg hc
  refine ⟨g, _, hg, hc, ?_, ?_, ?_⟩
  · obtain ⟨hsome, hdeprecated⟩ := hroots _ f hf rfl
    obtain ⟨e, he, ho⟩ := hsome hfr
    exact ⟨e, he, ho, (hdeprecated (fun _ _ => hfree) e he ho).trans hfd⟩
  · obtain ⟨hsome, hdeprecated⟩ := hroots _ m hm rfl
    obtain ⟨e, he, ho⟩ := hsome hmr
    exact ⟨e, he, ho, (hdeprecated (fun n hn => by cases hn) e he ho).trans hmd⟩
  · obtain ⟨component, hcomponent, hproperties⟩ := hcomponents d hd hk hx
    obtain ⟨m, hm, hmkey⟩ := hkey
    obtain ⟨m, hlast⟩ := exists_isLast (P := fun m => propertyKey g m = "nickname") hm hmkey
    obtain ⟨p, hp, hdeprecated, -⟩ := hproperties "nickname" m hlast
    obtain ⟨hs, hmd⟩ := hnickname m hlast.mem hlast.prop
    exact ⟨component, hn ▸ hcomponent, p, hp, (hdeprecated hs).trans hmd⟩

/-- Neither the operation of the list nor the identifier of the reference is deprecated. -/
theorem retired_loses_deprecations : ∃ g c, TypeGraph.ofSource? retired.toList = some g ∧
    convert? {} retired = some c ∧
    (∃ f ∈ queryFields g, isDeprecated f.directives = true ∧
      ∃ e ∈ written g {}, e.origin = .query f.name ∧ e.operation.deprecated = false) ∧
    ∃ d ∈ g.types, ∃ m ∈ retained g d.body.members, isDeprecated m.directives = true ∧
      ∃ component, c.document.components.get? d.name = some component ∧
        ∃ p, OrderedMap.get? (propertyKey g m) component.properties = some p ∧
          p.deprecated = false := by
  obtain ⟨g, hg, hlist, d, hd, hx, m, hm, hmd, hproperty⟩ := exists_graph retired
    (fun g =>
      (∃ f ∈ queryFields g, isDeprecated f.directives = true ∧
        ∃ e ∈ written g {}, e.origin = .query f.name ∧ e.operation.deprecated = false) ∧
      ∃ d ∈ g.types, isExposed g d = true ∧
        ∃ m ∈ retained g d.body.members, isDeprecated m.directives = true ∧
          (component? g {} d).any (fun component =>
            (OrderedMap.get? (propertyKey g m) component.properties).any (fun p =>
              !p.deprecated)) = true)
    (by decide +kernel)
  have hc := convert?_of_ofSource? {} hg
  obtain ⟨component, hcomponent, hp⟩ := (Option.any_eq_true _ _).1 hproperty
  obtain ⟨p, hp, hlost⟩ := (Option.any_eq_true _ _).1 hp
  exact ⟨g, _, hg, hc, hlist, d, hd, m, hm, hmd, component,
    (get?_components_iff hg hc hd).2 ⟨hx, hcomponent⟩, p, hp, Bool.not_eq_true' _ ▸ hlost⟩

end Conversion

end GraphRest
