import GraphRest.Proofs.Conversion.Finished
import GraphRest.Proofs.Endpoint.Collision
import GraphRest.Proofs.Endpoint.Origin

/-!
# Which fields a document represents

An endpoint is written for every field that asks for one. It stands in the finished document unless the
endpoint of another field is written to its slot later on, which happens in the five ways of
`Endpoint.Overwrites` only.
-/

namespace GraphRest

open Sdl Conversion

/-- The fields of a schema that ask for an endpoint, by origin: those of the roots, and the lists that
object types declare. Reserved names ask for none. -/
inductive Origin.FieldOf (g : TypeGraph) : Origin → Field → Prop where
  | query {f} : f ∈ queryFields g → isReservedName f.name = false → FieldOf g (.query f.name) f
  | mutation {f} : f ∈ mutationFields g → isReservedName f.name = false →
      FieldOf g (.mutation f.name) f
  | subscription {f} : f ∈ subscriptionFields g → isReservedName f.name = false →
      FieldOf g (.subscription f.name) f
  | member {d is fs f} : d ∈ g.types → isExposed g d = true → d.body = .object is fs → f ∈ fs →
      Endpoint.isCollection g f = true → FieldOf g (.member d.name f.name) f

namespace Endpoint

variable {g : TypeGraph} {options : Options} {e e' : Endpoint}

/-! ## Every field is written for -/

theorem exists_of_query (hg : g.Lawful) {f : Field} (hf : f ∈ queryFields g)
    (hr : isReservedName f.name = false) : ∃ e ∈ written g options, e.origin = .query f.name := by
  by_cases hc : ∃ p ∈ patternsOf g options, f.name ∈ consumedQueries p
  · obtain ⟨p, hp, hc⟩ := hc
    rcases mem_consumedQueries_iff.1 hc with ⟨-, hn⟩ | ⟨hget, hn⟩
    · exact ⟨resourceList p, (mem_written_iff hg).2 ⟨_, _, .list hp⟩, by rw [hn]; rfl⟩
    · exact ⟨resourceItem p, (mem_written_iff hg).2 ⟨_, _, .item hp hget⟩, by rw [hn]; rfl⟩
  · have hremaining : f ∈ remainingQueries (patternsOf g options) (queryFields g) :=
      mem_remainingQueries_iff.2 ⟨hf, fun p hp hmem => hc ⟨p, hp, hmem⟩, hr⟩
    exact ⟨queryEndpoint g f, (mem_written_iff hg).2 ⟨_, _, .query hremaining⟩, rfl⟩

theorem exists_of_mutation (hg : g.Lawful) {f : Field} (hf : f ∈ mutationFields g)
    (hr : isReservedName f.name = false) :
    ∃ e ∈ written g options, e.origin = .mutation f.name := by
  by_cases hc : ChangesResource options.mutationPrefixes (patternsOf g options) f.name
  · obtain ⟨p, hp, start, kind, hs, hk, hn⟩ := hc
    exact ⟨changeResource g p kind f, (mem_written_iff hg).2 ⟨_, _, .change hp hs hk hf hn⟩,
      origin_changeResource⟩
  · have hremaining := mem_remainingMutations_iff.2 ⟨hf, hc, hr⟩
    exact ⟨mutationEndpoint g f, (mem_written_iff hg).2 ⟨_, _, .mutation hremaining⟩, rfl⟩

theorem exists_of_fieldOf (hg : g.Lawful) {o : Origin} {f : Field} (ho : o.FieldOf g f) :
    ∃ e ∈ written g options, e.origin = o := by
  cases ho with
  | query hf hr => exact exists_of_query hg hf hr
  | mutation hf hr => exact exists_of_mutation hg hf hr
  | subscription hf hr => exact ⟨_, (mem_written_iff hg).2 ⟨_, _, .stream hf hr⟩, rfl⟩
  | member hd hx hb hf hc => exact ⟨_, (mem_written_iff hg).2 ⟨_, _, .member hd hx hb hf hc⟩, rfl⟩

theorem field?_of_fieldOf (hg : g.Lawful) {o : Origin} {f : Field} (ho : o.FieldOf g f) :
    o.field? g = some f := by
  cases ho with
  | query hf _ => exact (field?_query_iff hg).2 ⟨hf, rfl⟩
  | mutation hf _ => exact (field?_mutation_iff hg).2 ⟨hf, rfl⟩
  | subscription hf _ => exact (field?_subscription_iff hg).2 ⟨hf, rfl⟩
  | member hd _ hb hf _ => exact field?_member hg hd hb hf

theorem exists_builtFor (hg : g.Lawful) {o : Origin} {f : Field} (ho : o.FieldOf g f) :
    ∃ e ∈ written g options, e.origin = o ∧ BuiltFor g options f e := by
  obtain ⟨e, he, rfl⟩ := exists_of_fieldOf hg ho
  exact ⟨e, he, rfl, builtFor_of_mem_written hg he (field?_of_fieldOf hg ho)⟩

/-! ## Fields at the same slot -/

theorem overwrites_of_slot_eq (hg : g.Lawful) (he : e ∈ written g options)
    (he' : e' ∈ written g options) (hs : e.slot = e'.slot) (ho : e.origin ≠ e'.origin) :
    Overwrites g options.inflection e e' ∨ Overwrites g options.inflection e' e := by
  obtain ⟨s, pl, h⟩ := (mem_written_iff hg).1 he
  obtain ⟨s', pl', h'⟩ := (mem_written_iff hg).1 he'
  rcases Nat.le_total s.rank s'.rank with hle | hle
  · rcases h.collision hg h' hle hs with rfl | h
    · exact absurd rfl ho
    · exact Or.inr h
  · rcases h'.collision hg h hle hs.symm with rfl | h
    · exact absurd rfl ho
    · exact Or.inl h

theorem shared_slot_iff (hg : g.Lawful) (he : e ∈ written g options)
    (he' : e' ∈ written g options) : e.origin ≠ e'.origin ∧ e.slot = e'.slot ↔
      Overwrites g options.inflection e e' ∨ Overwrites g options.inflection e' e := by
  constructor
  · rintro ⟨ho, hs⟩
    exact overwrites_of_slot_eq hg he he' hs ho
  · rintro (h | h)
    · exact ⟨h.origin_ne, h.slot_eq⟩
    · exact ⟨h.origin_ne.symm, h.slot_eq.symm⟩

/-! ## Operations that differ -/

/-- An endpoint and the one that it overwrites have different operations. -/
theorem Overwrites.operation_ne {rules : InflectionRules} (h : Overwrites g rules e e') :
    e.operation ≠ e'.operation := by
  intro heq
  cases h with
  | streamOverList _ _ =>
      have hresponses := congrArg Operation.responses heq
      exact jsonResponses_ne_streamResponses (hresponses.symm.trans responses_subscriptionOperation)
  | streamOverQuery _ _ =>
      have hresponses := congrArg Operation.responses heq
      rw [queryEndpoint, responses_queryOperation] at hresponses
      exact jsonResponses_ne_streamResponses (hresponses.symm.trans responses_subscriptionOperation)
  | streamOverItem _ _ _ =>
      have hresponses := congrArg Operation.responses heq
      exact jsonResponses_ne_streamResponses (hresponses.symm.trans responses_subscriptionOperation)
  | memberOverMember ho _ hn =>
      have hid := congrArg Operation.operationId heq
      simp only [memberEndpoint, hn, Option.some.injEq, String.append_left_inj,
        String.append_right_inj] at hid
      exact ho hid
  | mutationOverCreate _ hn =>
      have hid := congrArg Operation.operationId heq
      rw [operationId_changeResource, mutationEndpoint, operationId_mutationOperation] at hid
      exact hn (Option.some.inj hid)

/-! ## What stands in the document -/

variable {source : String} {c : Conversion}

theorem standsIn_iff (hg : TypeGraph.ofSource? source.toList = some g)
    (hc : convert? options source = some c) (he : e ∈ written g options) :
    e.StandsIn options c.document ↔ ¬ ∃ e' ∈ written g options,
      Overwrites g options.inflection e' e ∧ e'.StandsIn options c.document := by
  constructor
  · rintro h ⟨e', -, hover, h'⟩
    exact hover.operation_ne (h'.operation_eq h hover.slot_eq)
  · intro hnone
    -- What stands in the slot is written last, so it is `e` or overwrites `e`.
    obtain ⟨pre, e', post, heq, hs, hpre, h'⟩ := exists_standsIn hg hc he
    rcases hpre with rfl | hpre
    · exact h'
    · have hpair := pairwise_overwrites (TypeGraph.lawful_of_ofSource? hg) options
      rw [heq, List.pairwise_append] at hpair
      rcases hpair.2.2 e hpre e' List.mem_cons_self hs.symm with rfl | hover
      · exact h'
      · exact absurd ⟨e', heq ▸ List.mem_append_right _ List.mem_cons_self, hover, h'⟩ hnone

theorem standsIn_of_last (hg : TypeGraph.ofSource? source.toList = some g)
    (hc : convert? options source = some c) {pre post : List Endpoint}
    (heq : written g options = pre ++ e :: post)
    (hlast : ∀ e' ∈ post, ¬ Overwrites g options.inflection e' e) :
    e.StandsIn options c.document := by
  have hpair := pairwise_overwrites (TypeGraph.lawful_of_ofSource? hg) options
  rw [heq, List.pairwise_append, List.pairwise_cons] at hpair
  rw [document_eq hg hc, heq]
  refine standsIn_writeAll fun x hx hs => ?_
  rcases hpair.2.1.1 x hx hs.symm with rfl | hover
  · rfl
  · exact absurd hover (hlast x hx)

end Endpoint

namespace Conversion

open Endpoint

variable {g : TypeGraph} {options : Options} {source : String} {c : Conversion}

/-! ## Representation -/

/-- Two fields share a slot just if the endpoint of one overwrites that of the other. Every field has an
endpoint, and it stands in the document unless one that stands there has overwritten it, the last one
that is written to the slot. -/
theorem fields_represented_unless_overwritten
    (hg : TypeGraph.ofSource? source.toList = some g) (hc : convert? options source = some c) :
    (∀ e ∈ written g options, ∀ e' ∈ written g options,
      e.origin ≠ e'.origin ∧ e.slot = e'.slot ↔
        Overwrites g options.inflection e e' ∨ Overwrites g options.inflection e' e) ∧
    (∀ (o : Origin) f, o.FieldOf g f →
      ∃ e ∈ written g options, e.origin = o ∧ BuiltFor g options f e) ∧
    (∀ e ∈ written g options, e.StandsIn options c.document ↔ ¬ ∃ e' ∈ written g options,
      Overwrites g options.inflection e' e ∧ e'.StandsIn options c.document) ∧
    (∀ pre e post, written g options = pre ++ e :: post →
      (∀ e' ∈ post, ¬ Overwrites g options.inflection e' e) →
      e.StandsIn options c.document) := by
  have hlawful := TypeGraph.lawful_of_ofSource? hg
  refine ⟨?_, ?_, ?_, ?_⟩
  · exact fun e he e' he' => shared_slot_iff hlawful he he'
  · exact fun o f ho => exists_builtFor hlawful ho
  · exact fun e he => standsIn_iff hg hc he
  · exact fun pre e post heq hlast => standsIn_of_last hg hc heq hlast

/-- A query and a subscription of one name, and a list behind a reserved name. -/
def overlapping : String :=
  "type Query \x7b ping: Int \x7d type Subscription \x7b ping: Int \x7d " ++
  "type __Box \x7b items: [__Box!] \x7d"

theorem ping_stream_stands : ∃ g c, TypeGraph.ofSource? overlapping.toList = some g ∧
    convert? {} overlapping = some c ∧
    ∃ e ∈ written g {}, e.origin = .subscription "ping" ∧ e.StandsIn {} c.document := by
  obtain ⟨g, hg, f, hf, hn⟩ := exists_graph overlapping
    (fun g => ∃ f ∈ subscriptionFields g, f.name = "ping") (by decide +kernel)
  have hc := convert?_of_ofSource? {} hg
  obtain ⟨-, hfields, hstands, -⟩ := fields_represented_unless_overwritten hg hc
  obtain ⟨e, he, ho, -⟩ := hfields _ f (.subscription hf (by rw [hn]; decide))
  rw [hn] at ho
  refine ⟨g, _, hg, hc, e, he, ho, (hstands e he).2 ?_⟩
  rintro ⟨e', -, hover, -⟩
  cases hover <;> cases ho

/-- Two fields are written to one slot, a query is lost, and so is the list of an object type. -/
theorem overlapping_loses_fields : ∃ g c, TypeGraph.ofSource? overlapping.toList = some g ∧
    convert? {} overlapping = some c ∧
    (∃ e ∈ written g {}, ∃ e' ∈ written g {}, e.origin ≠ e'.origin ∧ e.slot = e'.slot) ∧
    (∃ f ∈ queryFields g, isReservedName f.name = false ∧
      ∀ e ∈ written g {}, e.origin = .query f.name → ¬ e.StandsIn {} c.document) ∧
    (∃ d ∈ g.types, g.roots.contains d.name = false ∧ ∃ f ∈ (g.objectFields? d.name).getD [],
      isCollection g f = true ∧ ∀ e ∈ written g {}, e.origin ≠ .member d.name f.name) := by
  obtain ⟨g, hg, hslot, hquery, hmember⟩ := exists_graph overlapping
    (fun g =>
      (∃ e ∈ written g {}, ∃ e' ∈ written g {}, e.origin ≠ e'.origin ∧ e.slot = e'.slot) ∧
      (∃ f ∈ queryFields g, isReservedName f.name = false ∧
        ∀ e ∈ written g {}, e.origin = .query f.name →
          ((ofGraph {} overlapping g).document.operation? e.route e.method).map
            Operation.operationId ≠ some e.operation.operationId) ∧
      (∃ d ∈ g.types, g.roots.contains d.name = false ∧ ∃ f ∈ (g.objectFields? d.name).getD [],
        isCollection g f = true ∧ ∀ e ∈ written g {}, e.origin ≠ .member d.name f.name))
    (by decide +kernel)
  refine ⟨g, _, hg, convert?_of_ofSource? {} hg, hslot, ?_, hmember⟩
  obtain ⟨f, hf, hr, hother⟩ := hquery
  refine ⟨f, hf, hr, fun e he ho hstands => hother e he ho ?_⟩
  exact congrArg (Option.map Operation.operationId) hstands

end Conversion

end GraphRest
