import GraphRest.Conversion.Basic

/-!
# Contents of operations

Noting directives on an operation changes its texts and its deprecation only, so what an endpoint takes
and answers can be read off the way it was built.
-/

namespace GraphRest

open Sdl

/-! ## Notices -/

/-- Two operations take and answer the same under the same identifier. -/
structure Operation.SameContents (o o' : Operation) : Prop where
  operationId : o.operationId = o'.operationId
  parameters : o.parameters = o'.parameters
  requestBody : o.requestBody = o'.requestBody
  responses : o.responses = o'.responses

theorem Notice.sameContents_noteOperation (o : Operation) (n : Notice) :
    (noteOperation o n).SameContents o := by
  cases n with
  | deprecated reason => cases reason <;> exact ⟨rfl, rfl, rfl, rfl⟩
  | constraint _ => exact ⟨rfl, rfl, rfl, rfl⟩
  | specifiedBy _ => exact ⟨rfl, rfl, rfl, rfl⟩

theorem Notice.sameContents_noteAllOperation (ns : List Notice) (o : Operation) :
    (noteAllOperation ns o).SameContents o := by
  unfold noteAllOperation
  induction ns generalizing o with
  | nil => exact ⟨rfl, rfl, rfl, rfl⟩
  | cons n ns ih =>
      have hns := ih (noteOperation o n)
      have hn := sameContents_noteOperation o n
      exact ⟨hns.operationId.trans hn.operationId, hns.parameters.trans hn.parameters,
        hns.requestBody.trans hn.requestBody, hns.responses.trans hn.responses⟩

namespace Endpoint

variable {g : TypeGraph} {f : Field}

theorem sameContents_annotate (f : Field) (o : Operation) : (annotate f o).SameContents o :=
  Notice.sameContents_noteAllOperation _ o

/-! ## Queries -/

theorem parameters_queryOperation :
    (queryOperation g f).parameters = f.arguments.map (parameter g .query) :=
  (sameContents_annotate f _).parameters

theorem requestBody_queryOperation : (queryOperation g f).requestBody = none :=
  (sameContents_annotate f _).requestBody

theorem responses_queryOperation :
    (queryOperation g f).responses = jsonResponses (g.fragment f.type) :=
  (sameContents_annotate f _).responses

/-! ## Mutations -/

variable {fallback : Option String}

theorem operationId_mutationOperation :
    (mutationOperation g f fallback).operationId = some f.name :=
  (sameContents_annotate f _).operationId

theorem parameters_mutationOperation : (mutationOperation g f fallback).parameters = [] :=
  (sameContents_annotate f _).parameters

theorem requestBody_mutationOperation :
    (mutationOperation g f fallback).requestBody = requestBody? g f.arguments :=
  (sameContents_annotate f _).requestBody

theorem responses_mutationOperation :
    (mutationOperation g f fallback).responses = jsonResponses (g.fragment f.type) :=
  (sameContents_annotate f _).responses

theorem origin_changeResource {p : ResourcePattern} {kind : CrudOperation} :
    (changeResource g p kind f).origin = .mutation f.name := by
  cases kind <;> rfl

theorem operationId_changeResource {p : ResourcePattern} {kind : CrudOperation} :
    (changeResource g p kind f).operation.operationId = some f.name := by
  cases kind with
  | delete =>
      simp only [changeResource, deletion]
      split <;> exact operationId_mutationOperation
  | _ => exact operationId_mutationOperation

theorem responses_changeResource {p : ResourcePattern} {kind : CrudOperation} :
    (changeResource g p kind f).operation.responses = jsonResponses (g.fragment f.type) := by
  cases kind with
  | delete =>
      simp only [changeResource, deletion]
      split <;> exact responses_mutationOperation
  | _ => exact responses_mutationOperation

theorem parameters_atItem {q : Parameter}
    (hq : q ∈ (atItem (mutationOperation g f fallback)).parameters) : q = .idInPath := by
  rw [atItem, parameters_mutationOperation] at hq
  exact List.mem_singleton.1 hq

/-- A change of a resource has `id` in its path or nothing. -/
theorem parameters_changeResource {p : ResourcePattern} {kind : CrudOperation} {q : Parameter}
    (hq : q ∈ (changeResource g p kind f).operation.parameters) : q = .idInPath := by
  cases kind with
  | update => exact parameters_atItem hq
  | delete =>
      simp only [changeResource, deletion] at hq
      split at hq
      · exact List.mem_singleton.1 hq
      · exact parameters_atItem hq
  | _ =>
      have hq : q ∈ (mutationOperation g f _).parameters := hq
      rw [parameters_mutationOperation] at hq
      cases hq

/-- A change of a resource takes all arguments in its body or has none. -/
theorem requestBody_changeResource {p : ResourcePattern} {kind : CrudOperation} {b : RequestBody}
    (hb : (changeResource g p kind f).operation.requestBody = some b) :
    requestBody? g f.arguments = some b := by
  cases kind with
  | delete =>
      simp only [changeResource, deletion] at hb
      split at hb
      · cases hb
      · exact requestBody_mutationOperation.symm.trans hb
  | _ => exact requestBody_mutationOperation.symm.trans hb

/-! ## Subscriptions -/

theorem parameters_subscriptionOperation :
    (subscriptionOperation g f).parameters = streamParameters g false f.arguments :=
  rfl

theorem requestBody_subscriptionOperation : (subscriptionOperation g f).requestBody = none :=
  (sameContents_annotate f _).requestBody

theorem responses_subscriptionOperation :
    (subscriptionOperation g f).responses = streamResponses f.type.innermost :=
  (sameContents_annotate f _).responses

theorem jsonResponses_ne_streamResponses {schema : Fragment} {event : String} :
    jsonResponses schema ≠ streamResponses event := by
  simp [jsonResponses, streamResponses, Response.ofContent, jsonMediaType, eventStreamMediaType]

end Endpoint

end GraphRest
