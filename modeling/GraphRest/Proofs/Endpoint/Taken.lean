import GraphRest.Proofs.Endpoint.Collision
import GraphRest.Proofs.Endpoint.Annotations
import GraphRest.Proofs.Endpoint.Origin

/-!
# What resources take

A query or mutation that no resource takes has an endpoint of its own and no other one. A mutation that
a resource takes has others instead, which differ from its own one in no more than `Moved` says.
-/

namespace GraphRest

open Sdl Conversion

/-- A resource stands for a query or mutation. -/
def Origin.Taken (g : TypeGraph) (options : Options) : Origin → Prop
  | query n => n ∈ (patternsOf g options).flatMap Endpoint.consumedQueries
  | mutation n =>
      n ∈ Endpoint.consumedMutations options.mutationPrefixes (patternsOf g options)
        (mutationFields g)
  | _ => False

instance (g : TypeGraph) (options : Options) : DecidablePred (Origin.Taken g options)
  | .query _ => inferInstanceAs (Decidable (_ ∈ _))
  | .mutation _ => inferInstanceAs (Decidable (_ ∈ _))
  | .subscription _ => inferInstanceAs (Decidable False)
  | .member _ _ => inferInstanceAs (Decidable False)

namespace Endpoint

/-- The endpoint that a query or mutation has if no resource takes it. -/
inductive Own (g : TypeGraph) : Field → Endpoint → Prop where
  | query {f} : f ∈ queryFields g → Own g f (queryEndpoint g f)
  | mutation {f} : f ∈ mutationFields g → Own g f (mutationEndpoint g f)

/-- What becomes of the endpoint of a mutation that a resource takes. -/
structure Moved (f : Field) (e e' : Endpoint) : Prop where
  operationId : e'.operation.operationId = e.operation.operationId
  responses : e'.operation.responses = e.operation.responses
  deprecated : e'.operation.deprecated = e.operation.deprecated
  /-- A description is kept; without one the resource supplies the texts. -/
  texts : (nonEmpty f.description).isSome = true →
    e'.operation.summary = e.operation.summary ∧
      e'.operation.description = e.operation.description
  requestBody : ¬ (e'.method = .delete ∧ takesOnlyId f = true) →
    e'.operation.requestBody = e.operation.requestBody
  bodiless : e'.method = .delete ∧ takesOnlyId f = true → e'.operation.requestBody = none

variable {g : TypeGraph} {options : Options} {rules : InflectionRules} {f : Field}
  {e e' : Endpoint} {n : String}

/-! ## Fields that no resource takes -/

theorem taken_of_mem_consumedQueries {p : ResourcePattern} (hp : p ∈ patternsOf g options)
    (hn : n ∈ consumedQueries p) : (Origin.query n).Taken g options :=
  List.mem_flatMap.2 ⟨p, hp, hn⟩

theorem written_of_query_iff (hg : g.Lawful) (hf : f ∈ queryFields g)
    (hfree : ¬ (Origin.query f.name).Taken g options) :
    e ∈ written g options ∧ e.origin = .query f.name ↔
      isReservedName f.name = false ∧ e = queryEndpoint g f := by
  have hconsumed : ∀ p ∈ patternsOf g options, f.name ∉ consumedQueries p :=
    fun p hp hn => hfree (taken_of_mem_consumedQueries hp hn)
  constructor
  · rintro ⟨he, ho⟩
    have hfield : e.origin.field? g = some f := by
      rw [ho]
      exact (field?_query_iff hg).2 ⟨hf, rfl⟩
    cases builtFor_of_mem_written hg he hfield with
    | list hp _ hn =>
        have hlist := (supported_of_mem_patternsOf hp).list
        exact absurd (mem_consumedQueries_iff.2 (Or.inl ⟨hlist, hn⟩)) (hconsumed _ hp)
    | item hp hget _ hgotten =>
        exact absurd (mem_consumedQueries_iff.2 (Or.inr ⟨hget, hgotten.2.1⟩)) (hconsumed _ hp)
    | query hq => exact ⟨(mem_remainingQueries_iff.1 hq).2.2, rfl⟩
    | change _ => rw [origin_changeResource] at ho; cases ho
    | _ => cases ho
  · rintro ⟨hr, rfl⟩
    have hremaining := mem_remainingQueries_iff.2 ⟨hf, hconsumed, hr⟩
    exact ⟨(mem_written_iff hg).2 ⟨_, _, .query hremaining⟩, rfl⟩

theorem written_of_mutation_iff (hg : g.Lawful) (hf : f ∈ mutationFields g)
    (hfree : ¬ (Origin.mutation f.name).Taken g options) :
    e ∈ written g options ∧ e.origin = .mutation f.name ↔
      isReservedName f.name = false ∧ e = mutationEndpoint g f := by
  have hchanges : ¬ ChangesResource options.mutationPrefixes (patternsOf g options) f.name :=
    fun h => hfree (mem_consumedMutations_iff.2 ⟨⟨f, hf, rfl⟩, h⟩)
  constructor
  · rintro ⟨he, ho⟩
    obtain ⟨s, pl, hemitted⟩ := (mem_written_iff hg).1 he
    cases hemitted with
    | change hp hs hk _ hn =>
        rw [origin_changeResource] at ho
        exact absurd ⟨_, hp, _, _, hs, hk, Origin.mutation.inj ho ▸ hn⟩ hchanges
    | mutation hq =>
        obtain ⟨hf', -, hr⟩ := mem_remainingMutations_iff.1 hq
        obtain rfl := hg.eq_of_name_eq hf' hf (Origin.mutation.inj ho)
        exact ⟨hr, rfl⟩
    | _ => cases ho
  · rintro ⟨hr, rfl⟩
    have hremaining := mem_remainingMutations_iff.2 ⟨hf, hchanges, hr⟩
    exact ⟨(mem_written_iff hg).2 ⟨_, _, .mutation hremaining⟩, rfl⟩

/-- A field that no resource takes has its own endpoint and no other one, unless its name is reserved:
then it has none. -/
theorem Own.written_iff (hg : g.Lawful) (h : Own g f e) (hfree : ¬ e.origin.Taken g options) :
    e' ∈ written g options ∧ e'.origin = e.origin ↔ isReservedName f.name = false ∧ e' = e := by
  cases h with
  | query hf => exact written_of_query_iff hg hf hfree
  | mutation hf => exact written_of_mutation_iff hg hf hfree

/-! ## Streams -/

theorem mem_written_stream_iff (hg : g.Lawful) (ho : e.origin = .subscription n) :
    e ∈ written g options ↔ e ∈ subscriptions g (subscriptionFields g) := by
  constructor
  · intro he
    obtain ⟨s, pl, hemitted⟩ := (mem_written_iff hg).1 he
    cases hemitted with
    | stream hf hr => exact List.mem_map_of_mem (List.mem_filter.2 ⟨hf, by rw [hr]; rfl⟩)
    | change _ _ _ _ _ => rw [origin_changeResource] at ho; cases ho
    | _ => cases ho
  · exact List.mem_append_right _

theorem exists_origin_of_mem_subscriptions {fs : List Field} (h : e ∈ subscriptions g fs) :
    ∃ n, e.origin = .subscription n := by
  obtain ⟨f, -, rfl⟩ := List.mem_map.1 h
  exact ⟨_, rfl⟩

/-- Only streams overwrite the own endpoints of fields. -/
theorem Own.exists_stream (h : Own g f e) (hover : Overwrites g rules e' e) :
    ∃ n, e'.origin = .subscription n := by
  cases h with
  | query _ => exact hover.exists_stream rfl
  | mutation _ =>
      obtain ⟨m, hne, rfl⟩ := hover.exists_mutation rfl
      have hroute : nameRoute m.name = nameRoute f.name := (Prod.mk.inj hover.slot_eq).1
      exact absurd ((String.append_right_inj _).1 hroute) hne

/-! ## Mutations that resources take -/

theorem exists_change_of_taken (hg : g.Lawful)
    (htaken : (Origin.mutation f.name).Taken g options) (hf : f ∈ mutationFields g)
    (he : e ∈ written g options) (ho : e.origin = .mutation f.name) :
    ∃ p kind, e = changeResource g p kind f := by
  obtain ⟨s, pl, hemitted⟩ := (mem_written_iff hg).1 he
  cases hemitted with
  | change _ _ _ hf' _ =>
      rw [origin_changeResource] at ho
      obtain rfl := hg.eq_of_name_eq hf' hf (Origin.mutation.inj ho)
      exact ⟨_, _, rfl⟩
  | mutation hq =>
      have hfree := (mem_remainingMutations_iff.1 hq).2.1
      rw [Origin.mutation.inj ho] at hfree
      exact absurd (mem_consumedMutations_iff.1 htaken).2 hfree
  | _ => cases ho

/-- A fallback has no part in the operation of a mutation with a description. -/
theorem mutationOperation_of_described (h : (nonEmpty f.description).isSome = true)
    (fallback fallback' : Option String) :
    mutationOperation g f fallback = mutationOperation g f fallback' := by
  obtain ⟨text, htext⟩ := Option.isSome_iff_exists.1 h
  have htexts : ∀ fb, mutationTexts f fb =
      ((summarised f).summary, unlessEmpty (summarised f).description) := fun fb => by
    simp only [mutationTexts, htext]
  rw [mutationOperation, mutationOperation, htexts, htexts]

/-- The texts of a change are those of its mutation, which the resource supplies if there are none. -/
theorem texts_changeResource {p : ResourcePattern} {kind : CrudOperation} :
    (changeResource g p kind f).operation.summary =
        (mutationOperation g f (some (verb kind ++ " " ++ p.resource))).summary ∧
      (changeResource g p kind f).operation.description =
        (mutationOperation g f (some (verb kind ++ " " ++ p.resource))).description := by
  cases kind with
  | delete =>
      simp only [changeResource, deletion]
      split <;> exact ⟨rfl, rfl⟩
  | _ => exact ⟨rfl, rfl⟩

theorem moved_changeResource {p : ResourcePattern} {kind : CrudOperation} :
    Moved f (mutationEndpoint g f) (changeResource g p kind f) where
  operationId := operationId_changeResource.trans operationId_mutationOperation.symm
  responses := responses_changeResource.trans responses_mutationOperation.symm
  deprecated := deprecated_changeResource.trans deprecated_mutationOperation.symm
  texts hd := by
    rw [texts_changeResource.1, texts_changeResource.2, mutationOperation_of_described hd _ none]
    exact ⟨rfl, rfl⟩
  requestBody hkept := by
    refine Eq.trans ?_ requestBody_mutationOperation.symm
    cases kind with
    | delete =>
        have honly : ¬ takesOnlyId f = true := fun h => hkept ⟨rfl, h⟩
        simp only [changeResource, deletion, if_neg honly]
        exact requestBody_mutationOperation
    | _ => exact requestBody_mutationOperation
  bodiless := by
    rintro ⟨hm, honly⟩
    cases kind with
    | delete => simp only [changeResource, deletion, if_pos honly]
    | _ => cases hm

end Endpoint

end GraphRest
