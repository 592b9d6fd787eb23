import GraphRest.Proofs.Endpoint.Emitted
import GraphRest.Proofs.Endpoint.Operations

/-!
# Fields behind endpoints

The origin of an endpoint names a field. `BuiltFor` says how the endpoints of a field are built from it:
resources take a field of their naming, all other endpoints take the field itself.
-/

namespace GraphRest

open Sdl Conversion

/-! ## Fields by origin -/

/-- The field that an origin names. -/
def Origin.field? (g : TypeGraph) : Origin → Option Field
  | query n => (queryFields g).find? (·.name = n)
  | mutation n => (mutationFields g).find? (·.name = n)
  | subscription n => (subscriptionFields g).find? (·.name = n)
  | member owner n => (g.objectFields? owner).bind (·.find? (·.name = n))

/-- Whether an origin names a field of a root. -/
def Origin.isRoot : Origin → Bool
  | member .. => false
  | _ => true

namespace Endpoint

variable {g : TypeGraph} {options : Options} {n : String} {f : Field}

theorem field?_query_iff (hg : g.Lawful) :
    (Origin.query n).field? g = some f ↔ f ∈ queryFields g ∧ f.name = n :=
  find?_key_eq_some_iff (hg.rootFields g.roots.query).1

theorem field?_mutation_iff (hg : g.Lawful) :
    (Origin.mutation n).field? g = some f ↔ f ∈ mutationFields g ∧ f.name = n :=
  find?_key_eq_some_iff (hg.rootFields g.roots.mutation).1

theorem field?_subscription_iff (hg : g.Lawful) :
    (Origin.subscription n).field? g = some f ↔ f ∈ subscriptionFields g ∧ f.name = n :=
  find?_key_eq_some_iff (hg.rootFields g.roots.subscription).1

theorem field?_member (hg : g.Lawful) {d : TypeDefinition} {is : List String} {fs : List Field}
    (hd : d ∈ g.types) (hb : d.body = .object is fs) (hf : f ∈ fs) :
    (Origin.member d.name f.name).field? g = some f := by
  have htype : g.type? d.name = some d :=
    hg.type?_eq_some_iff.2 ⟨List.mem_append_left _ hd, rfl⟩
  have hfields : g.objectFields? d.name = some fs :=
    TypeGraph.objectFields?_eq_some_iff.2 ⟨d, is, htype, hb⟩
  rw [Origin.field?, hfields]
  exact (find?_key_eq_some_iff (hg.objectFields? hfields).1).2 ⟨hf, rfl⟩

/-! ## Endpoints by field -/

/-- An endpoint is built for a field. -/
inductive BuiltFor (g : TypeGraph) (options : Options) (f : Field) : Endpoint → Prop where
  | list {p} : p ∈ patternsOf g options → f ∈ queryFields g → f.name = p.plural →
      BuiltFor g options f (resourceList p)
  | item {p} : p ∈ patternsOf g options → p.has .get = true → f ∈ queryFields g →
      GottenBy options.inflection p.resource f → BuiltFor g options f (resourceItem p)
  | query : f ∈ remainingQueries (patternsOf g options) (queryFields g) →
      BuiltFor g options f (queryEndpoint g f)
  | member {d is fs} : d ∈ g.types → isExposed g d = true → d.body = .object is fs → f ∈ fs →
      isCollection g f = true → BuiltFor g options f (memberEndpoint options.inflection d.name f)
  | change {p kind} : p ∈ patternsOf g options → BuiltFor g options f (changeResource g p kind f)
  | mutation : BuiltFor g options f (mutationEndpoint g f)
  | stream : BuiltFor g options f (subscriptionEndpoint g f)

theorem Emitted.builtFor (hg : g.Lawful) {s : Stage} {pl : Place} {e : Endpoint}
    (h : Emitted g options s pl e) (hf : e.origin.field? g = some f) : BuiltFor g options f e := by
  cases h with
  | list hp =>
      obtain ⟨hf, hn⟩ := (field?_query_iff hg).1 hf
      exact .list hp hf hn
  | item hp hget =>
      obtain ⟨hf, hn⟩ := (field?_query_iff hg).1 hf
      obtain ⟨f', hf', hgotten⟩ := (supported_of_mem_patternsOf hp).gotten hget
      obtain rfl : f' = f :=
        hg.eq_of_name_eq hf' hf (hgotten.2.1.trans hn.symm)
      exact .item hp hget hf hgotten
  | @query q hq =>
      have hself := (field?_query_iff hg).2 ⟨(mem_remainingQueries_iff.1 hq).1, rfl⟩
      obtain rfl : q = f := Option.some.inj (hself.symm.trans hf)
      exact .query hq
  | @member d is fs q hd hx hb hq hc =>
      obtain rfl : q = f := Option.some.inj ((field?_member hg hd hb hq).symm.trans hf)
      exact .member hd hx hb hq hc
  | @change p start kind m hp hs hk hm hn =>
      have hself := (field?_mutation_iff hg).2 ⟨hm, rfl⟩
      rw [origin_changeResource] at hf
      obtain rfl : m = f := Option.some.inj (hself.symm.trans hf)
      exact .change hp
  | @mutation m hm =>
      have hself := (field?_mutation_iff hg).2 ⟨(mem_remainingMutations_iff.1 hm).1, rfl⟩
      obtain rfl : m = f := Option.some.inj (hself.symm.trans hf)
      exact .mutation
  | @stream q hq hr =>
      have hself := (field?_subscription_iff hg).2 ⟨hq, rfl⟩
      obtain rfl : q = f := Option.some.inj (hself.symm.trans hf)
      exact .stream

theorem builtFor_of_mem_written (hg : g.Lawful) {e : Endpoint} (he : e ∈ written g options)
    (hf : e.origin.field? g = some f) : BuiltFor g options f e := by
  obtain ⟨s, pl, hemitted⟩ := (mem_written_iff hg).1 he
  exact hemitted.builtFor hg hf

end Endpoint

end GraphRest
