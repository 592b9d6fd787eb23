import GraphRest.Proofs.Conversion.Representation
import GraphRest.Proofs.Endpoint.Taken

/-!
# Conversions with and without resources

Whether resources are detected decides on where the queries and mutations stand that resources take, and
on nothing else in a document.
-/

namespace GraphRest

open Sdl Conversion

/-- The options with the detection of resources switched on or off. -/
def Options.detecting (on : Bool) (o : Options) : Options := { o with detectResources := on }

namespace Endpoint

variable {g : TypeGraph} {options : Options} {source : String} {c : Conversion} {f : Field}
  {e : Endpoint} {n : String}

theorem not_taken_without_detection (o : Origin) : ¬ o.Taken g (options.detecting false) := by
  have hnone : patternsOf g (options.detecting false) = [] := rfl
  intro h
  cases o with
  | query n =>
      rw [Origin.Taken, hnone] at h
      cases h
  | mutation n =>
      rw [Origin.Taken, hnone] at h
      cases h
  | _ => exact h

/-! ## What stands in a document -/

/-- The own endpoint of a field stands unless a stream has its slot. -/
theorem Own.standsIn_iff (hg : TypeGraph.ofSource? source.toList = some g)
    (hc : convert? options source = some c) (h : Own g f e) (he : e ∈ written g options) :
    e.StandsIn options c.document ↔
      ∀ e' ∈ subscriptions g (subscriptionFields g), e'.slot ≠ e.slot := by
  have hlawful := TypeGraph.lawful_of_ofSource? hg
  rw [Endpoint.standsIn_iff hg hc he]
  constructor
  · -- Streams are written last and stay, so one at the slot of the field would have replaced it.
    intro hnone e' he' hslot
    obtain ⟨n, hn⟩ := exists_origin_of_mem_subscriptions he'
    have hw : e' ∈ written g options := (mem_written_stream_iff hlawful hn).2 he'
    have hne : e'.origin ≠ e.origin := by
      rw [hn]
      cases h <;> exact fun ho => by cases ho
    rcases overwrites_of_slot_eq hlawful hw he hslot hne with hover | hover
    · refine hnone ⟨e', hw, hover, (Endpoint.standsIn_iff hg hc hw).2 ?_⟩
      rintro ⟨e'', -, hover', -⟩
      exact hover'.origin_ne_stream hn
    · exact hover.origin_ne_stream hn
  · rintro hno ⟨e', he', hover, -⟩
    obtain ⟨n, hn⟩ := h.exists_stream hover
    exact hno e' ((mem_written_stream_iff hlawful hn).1 he') hover.slot_eq

theorem standsIn_mutationEndpoint (hg : TypeGraph.ofSource? source.toList = some g)
    (hc : convert? options source = some c) (hf : f ∈ mutationFields g)
    (he : mutationEndpoint g f ∈ written g options) :
    (mutationEndpoint g f).StandsIn options c.document := by
  refine ((Own.mutation hf).standsIn_iff hg hc he).2 fun e' he' hslot => ?_
  obtain ⟨s, -, rfl⟩ := List.mem_map.1 he'
  cases (Prod.mk.inj hslot).2

/-- The endpoint of a mutation stands unless that of another mutation is written to its slot. -/
theorem standsIn_or_of_mutation (hg : TypeGraph.ofSource? source.toList = some g)
    (hc : convert? options source = some c) (he : e ∈ written g options)
    (ho : e.origin = .mutation n) :
    e.StandsIn options c.document ∨
      ∃ e' ∈ written g options, ∃ m, m ≠ n ∧ e'.origin = .mutation m ∧ e'.slot = e.slot := by
  by_cases hstands : e.StandsIn options c.document
  · exact Or.inl hstands
  · rw [Endpoint.standsIn_iff hg hc he, not_not] at hstands
    obtain ⟨e', he', hover, -⟩ := hstands
    have hslot := hover.slot_eq
    obtain ⟨m, hne, rfl⟩ := hover.exists_mutation ho
    exact Or.inr ⟨_, he', m.name, hne, rfl, hslot⟩

end Endpoint

/-! ## Two conversions -/

namespace Conversion

open Endpoint

variable {g : TypeGraph} {options : Options} {source : String} {c c' : Conversion}

/-- Beyond its paths a document has nothing that depends on the detection of resources. -/
theorem exists_document_eq {on : Bool} (hg : TypeGraph.ofSource? source.toList = some g)
    (hc : convert? (options.detecting on) source = some c) :
    ∃ paths, c.document = { writeComponents (components g options.inflection)
      (Document.new (Header.info options source) (Header.servers options)) with paths } := by
  obtain ⟨paths, h⟩ := exists_writeAll_eq (options.detecting on) (written g (options.detecting on))
    (writeComponents (components g options.inflection)
      (Document.new (Header.info options source) (Header.servers options)))
  exact ⟨paths, (document_eq hg hc).trans h⟩

/-- The detection of resources moves operations only. A query or mutation that no resource takes has one
endpoint, the same with the detection as without it, or none if its name is reserved. A mutation that a
resource takes has endpoints elsewhere in place of its own one, and `Moved` says how they differ. -/
theorem detection_moves_operations (hg : TypeGraph.ofSource? source.toList = some g)
    (hc : convert? (options.detecting true) source = some c)
    (hc' : convert? (options.detecting false) source = some c') :
    (c'.document.info = c.document.info ∧ c'.document.servers = c.document.servers ∧
      c'.document.components = c.document.components) ∧
    (∀ f e, Own g f e → ¬ e.origin.Taken g (options.detecting true) →
      (∀ on e', e' ∈ written g (options.detecting on) ∧ e'.origin = e.origin ↔
        isReservedName f.name = false ∧ e' = e) ∧
      (isReservedName f.name = false → (e.StandsIn (options.detecting true) c.document ↔
        e.StandsIn (options.detecting false) c'.document))) ∧
    ∀ f ∈ mutationFields g, isReservedName f.name = false →
      (Origin.mutation f.name).Taken g (options.detecting true) →
      (∀ e, e ∈ written g (options.detecting false) ∧ e.origin = .mutation f.name ↔
        e = mutationEndpoint g f) ∧
      (mutationEndpoint g f).StandsIn (options.detecting false) c'.document ∧
      (∃ e ∈ written g (options.detecting true), e.origin = .mutation f.name) ∧
      ∀ e ∈ written g (options.detecting true), e.origin = .mutation f.name →
        Moved f (mutationEndpoint g f) e ∧ (e.StandsIn (options.detecting true) c.document ∨
          ∃ e' ∈ written g (options.detecting true), ∃ n, n ≠ f.name ∧ e'.origin = .mutation n ∧
            e'.slot = e.slot) := by
  have hlawful := TypeGraph.lawful_of_ofSource? hg
  refine ⟨?_, ?_, ?_⟩
  · obtain ⟨paths, h⟩ := exists_document_eq hg hc
    obtain ⟨paths', h'⟩ := exists_document_eq hg hc'
    rw [h, h']
    exact ⟨rfl, rfl, rfl⟩
  · intro f e hown hfree
    have hwritten : ∀ on e', e' ∈ written g (options.detecting on) ∧ e'.origin = e.origin ↔
        isReservedName f.name = false ∧ e' = e := by
      intro on e'
      cases on with
      | true => exact hown.written_iff hlawful hfree
      | false => exact hown.written_iff hlawful (not_taken_without_detection _)
    refine ⟨hwritten, fun hr => ?_⟩
    have he : ∀ on, e ∈ written g (options.detecting on) := fun on =>
      ((hwritten on e).2 ⟨hr, rfl⟩).1
    rw [hown.standsIn_iff hg hc (he true), hown.standsIn_iff hg hc' (he false)]
  · intro f hf hr htaken
    have hwritten : ∀ e, e ∈ written g (options.detecting false) ∧ e.origin = .mutation f.name ↔
        e = mutationEndpoint g f := fun e => by
      rw [written_of_mutation_iff hlawful hf (not_taken_without_detection _), and_iff_right hr]
    refine ⟨hwritten, standsIn_mutationEndpoint hg hc' hf ((hwritten _).2 rfl).1,
      exists_of_mutation hlawful hf hr, fun e he ho => ⟨?_, standsIn_or_of_mutation hg hc he ho⟩⟩
    obtain ⟨p, kind, rfl⟩ := exists_change_of_taken hlawful htaken hf he ho
    exact moved_changeResource

/-- A resource that is created with a description and deleted by its `id`, and a query beside it. -/
def curated : String :=
  "type Query \x7b users: [User!]! version: String \x7d type User \x7b id: ID! \x7d " ++
  "type Mutation \x7b \"Adds a user.\" createUser(name: String!): User deleteUser(id: ID!): ID \x7d"

theorem curated_operations_move : ∃ g c c', TypeGraph.ofSource? curated.toList = some g ∧
    convert? (({} : Options).detecting true) curated = some c ∧
    convert? (({} : Options).detecting false) curated = some c' ∧
    c'.document.components = c.document.components ∧
    (∃ e, e.origin = .query "version" ∧ e ∈ written g (({} : Options).detecting true) ∧
      e ∈ written g (({} : Options).detecting false)) ∧
    (∃ e ∈ written g (({} : Options).detecting true), e.origin = .mutation "createUser" ∧
      ∃ e' ∈ written g (({} : Options).detecting false), e'.origin = .mutation "createUser" ∧
        e.operation.summary = e'.operation.summary ∧
        e.operation.requestBody = e'.operation.requestBody) ∧
    ∃ e ∈ written g (({} : Options).detecting true), e.origin = .mutation "deleteUser" ∧
      e.method = .delete ∧ e.operation.requestBody = none := by
  obtain ⟨g, hg, ⟨f, hf, hn, hr, hfree⟩, ⟨m, hm, hmn, hmr, hmt, hmc, hmd⟩, d, hd, hdn, hdr, hdt,
      hdi, hdm⟩ :=
    exists_graph curated
      (fun g =>
        (∃ f ∈ queryFields g, f.name = "version" ∧ isReservedName f.name = false ∧
          ¬ (Origin.query f.name).Taken g (({} : Options).detecting true)) ∧
        (∃ f ∈ mutationFields g, f.name = "createUser" ∧ isReservedName f.name = false ∧
          (Origin.mutation f.name).Taken g (({} : Options).detecting true) ∧
          takesOnlyId f = false ∧ (nonEmpty f.description).isSome = true) ∧
        ∃ f ∈ mutationFields g, f.name = "deleteUser" ∧ isReservedName f.name = false ∧
          (Origin.mutation f.name).Taken g (({} : Options).detecting true) ∧
          takesOnlyId f = true ∧
          ∀ e ∈ written g (({} : Options).detecting true), e.origin = .mutation f.name →
            e.method = .delete)
      (by decide +kernel)
  have hc := convert?_of_ofSource? (({} : Options).detecting true) hg
  have hc' := convert?_of_ofSource? (({} : Options).detecting false) hg
  obtain ⟨⟨-, -, hcomponents⟩, hkept, hmoved⟩ := detection_moves_operations hg hc hc'
  refine ⟨g, _, _, hg, hc, hc', hcomponents, ?_, ?_, ?_⟩
  · obtain ⟨hwritten, -⟩ := hkept f _ (.query hf) hfree
    exact ⟨_, congrArg _ hn, ((hwritten true _).2 ⟨hr, rfl⟩).1, ((hwritten false _).2 ⟨hr, rfl⟩).1⟩
  · obtain ⟨hown, -, ⟨e, he, ho⟩, hall⟩ := hmoved m hm hmr hmt
    have hchange := (hall e he ho).1
    have honly : ¬ (e.method = .delete ∧ takesOnlyId m = true) := fun h => by
      rw [hmc] at h
      cases h.2
    obtain ⟨hw, ho'⟩ := (hown _).2 rfl
    exact ⟨e, he, ho.trans (congrArg _ hmn), _, hw, ho'.trans (congrArg _ hmn),
      (hchange.texts hmd).1, hchange.requestBody honly⟩
  · obtain ⟨-, -, ⟨e, he, ho⟩, hall⟩ := hmoved d hd hdr hdt
    have hmethod := hdm e he ho
    exact ⟨e, he, ho.trans (congrArg _ hdn), hmethod, (hall e he ho).1.bodiless ⟨hmethod, hdi⟩⟩

/-- A query with a reserved name, and a mutation with one that creates a resource. -/
def veiled : String :=
  "type Query \x7b users: [User!]! __version: String \x7d type User \x7b id: ID! \x7d " ++
  "type Mutation \x7b __createUser: User \x7d"

/-- The prefix of mutations on resources may be reserved too. -/
def veiledOptions : Options := { mutationPrefixes := { create := "__create" } }

/-- The query is written in no conversion, and the mutation only with the detection of resources. -/
theorem veiled_fields_dropped : ∃ g c c', TypeGraph.ofSource? veiled.toList = some g ∧
    convert? (veiledOptions.detecting true) veiled = some c ∧
    convert? (veiledOptions.detecting false) veiled = some c' ∧
    (∃ f ∈ queryFields g, ¬ (Origin.query f.name).Taken g (veiledOptions.detecting true) ∧
      ∀ on, ∀ e ∈ written g (veiledOptions.detecting on), e.origin ≠ .query f.name) ∧
    ∃ f ∈ mutationFields g, (Origin.mutation f.name).Taken g (veiledOptions.detecting true) ∧
      (∃ e ∈ written g (veiledOptions.detecting true), e.origin = .mutation f.name) ∧
      ∀ e ∈ written g (veiledOptions.detecting false), e.origin ≠ .mutation f.name := by
  obtain ⟨g, hg, hquery, hmutation⟩ := exists_graph veiled
    (fun g =>
      (∃ f ∈ queryFields g, ¬ (Origin.query f.name).Taken g (veiledOptions.detecting true) ∧
        ∀ on, ∀ e ∈ written g (veiledOptions.detecting on), e.origin ≠ .query f.name) ∧
      ∃ f ∈ mutationFields g, (Origin.mutation f.name).Taken g (veiledOptions.detecting true) ∧
        (∃ e ∈ written g (veiledOptions.detecting true), e.origin = .mutation f.name) ∧
        ∀ e ∈ written g (veiledOptions.detecting false), e.origin ≠ .mutation f.name)
    (by decide +kernel)
  exact ⟨g, _, _, hg, convert?_of_ofSource? _ hg, convert?_of_ofSource? _ hg, hquery, hmutation⟩

end Conversion

end GraphRest
