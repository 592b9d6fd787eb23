import GraphRest.Proofs.Conversion.ResourceChanges
import GraphRest.Proofs.Endpoint.Operations
import GraphRest.Proofs.Resource.Detection
import GraphRest.Proofs.Text.Case

/-!
# The endpoints of queries

Detected resources take queries away from the ones that stand at routes of their own names. The plural of a
resource is the name of a query that lists it, so every query is represented once at least, each endpoint
stands for a query, and no two endpoints meet in one slot.
-/

namespace GraphRest

open Sdl

namespace Endpoint

/-- An endpoint represents a query: as the list or the item of a resource that the query lists or gets, or
at the route of its own name. -/
inductive RepresentsQuery (g : TypeGraph) (rules : InflectionRules) (ps : List ResourcePattern)
    (f : Field) : Endpoint → Prop where
  | list {p} : p ∈ ps → p.plural = f.name → Lists rules p.resource f →
      RepresentsQuery g rules ps f (resourceList p)
  | item {p} : p ∈ ps → p.has .get = true → Gets rules p.resource f →
      RepresentsQuery g rules ps f (resourceItem p)
  | own : RepresentsQuery g rules ps f (queryEndpoint g f)

/-- The endpoints that resources and queries lead to are exact: they keep apart, and queries and endpoints
stand for each other. -/
structure QueriesExact (g : TypeGraph) (options : Options) (ps : List ResourcePattern)
    (query : List Field) : Prop where
  distinct_plurals : (ps.map ResourcePattern.plural).Nodup
  named_plurals : ∀ p ∈ ps, ∃ f ∈ query, f.name = p.plural
  /-- No method of a path is written twice. -/
  distinct_slots : ((queries g ps query).map fun e => (options.path e.route, e.method)).Nodup
  /-- So all that is written into an empty document stands there. -/
  operations : ∀ info servers path method operation,
    (path, method, operation) ∈
        (writeAll options (queries g ps query) (.new info servers)).operations ↔
      ∃ e ∈ queries g ps query, options.path e.route = path ∧ e.method = method ∧
        e.operation = operation
  represented : ∀ f ∈ query, isReservedName f.name = false →
    ∃ e ∈ queries g ps query, RepresentsQuery g options.inflection ps f e
  /-- Which queries stand at routes of their own names. -/
  own : ∀ f ∈ query, queryEndpoint g f ∈ queries g ps query ↔
    isReservedName f.name = false ∧ (∀ p ∈ ps, p.plural ≠ f.name) ∧
      ∀ p ∈ ps, p.has .get = true → p.resource ≠ f.name
  represents : ∀ e ∈ queries g ps query, ∃ f ∈ query, isReservedName f.name = false ∧
    e.origin = .query f.name ∧ RepresentsQuery g options.inflection ps f e

variable {g : TypeGraph} {options : Options} {query mutation : List Field} {rules : InflectionRules}
  {prefixes : MutationPrefixes} {ps : List ResourcePattern} {p : ResourcePattern} {f : Field}
  {e : Endpoint}

theorem mem_queries_iff : e ∈ queries g ps query ↔
    (∃ p ∈ ps, e ∈ readResource p) ∨ ∃ f ∈ remainingQueries ps query, queryEndpoint g f = e := by
  rw [queries, List.mem_append, List.mem_flatMap, List.mem_map]

/-! ## Plurals -/

/-- The plural of a detected resource is the name of a query that lists it. -/
theorem exists_lists (hp : p ∈ detectResources query mutation rules prefixes) :
    ∃ f ∈ query, p.plural = f.name ∧ Lists rules p.resource f := by
  obtain ⟨f, hlast, hn⟩ := (describes_of_mem_detectResources hp).plural
  exact ⟨f, hlast.mem, hn, hlast.prop⟩

theorem slash_not_mem_plural (hnames : ∀ f ∈ query, isName f.name = true)
    (hp : p ∈ detectResources query mutation rules prefixes) : '/' ∉ p.plural.toList := by
  obtain ⟨f, hf, hn, -⟩ := exists_lists hp
  rw [hn]
  exact not_mem_of_isName (hnames f hf) (by decide)

theorem pairwise_plural_detectResources (hdistinct : (query.map Field.name).Nodup) :
    (detectResources query mutation rules prefixes).Pairwise fun p p' => p.plural ≠ p'.plural := by
  refine List.Pairwise.imp_of_mem ?_ pairwise_detectResources
  intro p p' hp hp' hlt hplural
  rw [eq_of_plural_eq hdistinct hp hp' hplural] at hlt
  exact List.lt_irrefl _ hlt

/-! ## Slots -/

theorem slot_ne_of_place_ne (pl pl' : Place) (h : pl.Legal) (h' : pl'.Legal) (hne : pl ≠ pl') :
    pl.slot ≠ pl'.slot :=
  fun heq => hne (Place.slot_inj h h' heq)

theorem exists_place_of_mem_readResource (h : e ∈ readResource p) (hp : '/' ∉ p.plural.toList) :
    ∃ pl : Place, e.slot = pl.slot ∧ pl.Legal ∧
      (pl = .atName .get p.plural ∨ pl = .below .get p.plural "id") := by
  rcases mem_readResource_iff.1 h with ⟨-, rfl⟩ | ⟨-, rfl⟩
  · exact ⟨.atName .get p.plural, rfl, hp, .inl rfl⟩
  · exact ⟨.below .get p.plural "id", rfl, ⟨hp, by decide⟩, .inr rfl⟩

theorem pairwise_readResource (hp : '/' ∉ p.plural.toList) :
    (readResource p).Pairwise fun e e' => e.slot ≠ e'.slot := by
  have hne : (resourceList p).slot ≠ (resourceItem p).slot :=
    slot_ne_of_place_ne (.atName .get p.plural) (.below .get p.plural "id") hp ⟨hp, by decide⟩ (by simp)
  unfold readResource
  split <;> split <;> simp [hne]

theorem pairwise_queries (hdistinct : (query.map Field.name).Nodup)
    (hnames : ∀ f ∈ query, isName f.name = true) :
    (queries g (detectResources query mutation rules prefixes) query).Pairwise
      fun e e' => e.slot ≠ e'.slot := by
  rw [queries, List.pairwise_append, List.pairwise_flatMap, List.pairwise_map]
  refine ⟨⟨fun p hp => pairwise_readResource (slash_not_mem_plural hnames hp), ?_⟩, ?_, ?_⟩
  · -- Two resources have plurals of their own.
    refine List.Pairwise.imp_of_mem ?_ (pairwise_plural_detectResources hdistinct)
    intro p p' hp hp' hne e he e' he'
    obtain ⟨pl, hslot, hlegal, hpl⟩ :=
      exists_place_of_mem_readResource he (slash_not_mem_plural hnames hp)
    obtain ⟨pl', hslot', hlegal', hpl'⟩ :=
      exists_place_of_mem_readResource he' (slash_not_mem_plural hnames hp')
    rw [hslot, hslot']
    refine slot_ne_of_place_ne _ _ hlegal hlegal' ?_
    rcases hpl with rfl | rfl <;> rcases hpl' with rfl | rfl <;> simp [hne]
  · -- Two queries have names of their own.
    refine (List.Pairwise.filter _ (List.pairwise_map.1 hdistinct)).imp ?_
    intro f f' hne hslot
    exact hne ((String.append_right_inj _).1 (Prod.mk.inj hslot).1)
  · -- A query with the name of a plural belongs to its resource.
    intro e he e' he'
    obtain ⟨p, hp, he⟩ := List.mem_flatMap.1 he
    obtain ⟨f, hf, rfl⟩ := List.mem_map.1 he'
    obtain ⟨hf, hfree, -⟩ := mem_remainingQueries_iff.1 hf
    obtain ⟨pl, hslot, hlegal, hpl⟩ :=
      exists_place_of_mem_readResource he (slash_not_mem_plural hnames hp)
    have hlist := (supported_of_mem_detectResources hp).list
    have hne : p.plural ≠ f.name := fun hn =>
      hfree p hp (mem_consumedQueries_iff.2 (.inl ⟨hlist, hn.symm⟩))
    have hslash : '/' ∉ f.name.toList := not_mem_of_isName (hnames f hf) (by decide)
    rw [hslot]
    refine slot_ne_of_place_ne _ (.atName .get f.name) hlegal hslash ?_
    rcases hpl with rfl | rfl <;> simp [hne]

/-! ## Representation -/

/-- A query that belongs to a resource is represented by it, as no other query has its name. -/
theorem represented_of_consumed (hdistinct : (query.map Field.name).Nodup)
    (hp : p ∈ detectResources query mutation rules prefixes) (hf : f ∈ query)
    (hconsumed : f.name ∈ consumedQueries p) :
    ∃ e ∈ readResource p,
      RepresentsQuery g rules (detectResources query mutation rules prefixes) f e := by
  rcases mem_consumedQueries_iff.1 hconsumed with ⟨hlist, hn⟩ | ⟨hget, hn⟩
  · obtain ⟨f', hf', hn', hlists⟩ := exists_lists hp
    obtain rfl := List.inj_on_of_nodup_map hdistinct hf hf' (hn.trans hn')
    exact ⟨_, mem_readResource_iff.2 (.inl ⟨hlist, rfl⟩), .list hp hn.symm hlists⟩
  · obtain ⟨f', hf', hgets⟩ := (describes_of_mem_detectResources hp).get.1 hget
    obtain rfl := List.inj_on_of_nodup_map hdistinct hf hf' (hn.trans hgets.named.symm)
    exact ⟨_, mem_readResource_iff.2 (.inr ⟨hget, rfl⟩), .item hp hget hgets⟩

theorem exists_represented (hdistinct : (query.map Field.name).Nodup) (hf : f ∈ query)
    (hr : isReservedName f.name = false) :
    ∃ e ∈ queries g (detectResources query mutation rules prefixes) query,
      RepresentsQuery g rules (detectResources query mutation rules prefixes) f e := by
  by_cases hc : ∃ p ∈ detectResources query mutation rules prefixes, f.name ∈ consumedQueries p
  · obtain ⟨p, hp, hc⟩ := hc
    obtain ⟨e, he, hrep⟩ := represented_of_consumed hdistinct hp hf hc
    exact ⟨e, mem_queries_iff.2 (.inl ⟨p, hp, he⟩), hrep⟩
  · have hfree := mem_remainingQueries_iff.2 ⟨hf, fun p hp hn => hc ⟨p, hp, hn⟩, hr⟩
    exact ⟨_, mem_queries_iff.2 (.inr ⟨f, hfree, rfl⟩), .own⟩

theorem exists_of_mem_queries
    (he : e ∈ queries g (detectResources query mutation rules prefixes) query) :
    ∃ f ∈ query, isReservedName f.name = false ∧ e.origin = .query f.name ∧
      RepresentsQuery g rules (detectResources query mutation rules prefixes) f e := by
  rcases mem_queries_iff.1 he with ⟨p, hp, he⟩ | ⟨f, hf, rfl⟩
  · rcases mem_readResource_iff.1 he with ⟨-, rfl⟩ | ⟨hget, rfl⟩
    · obtain ⟨f, hf, hn, hlists⟩ := exists_lists hp
      exact ⟨f, hf, hlists.unreserved, congrArg _ hn, .list hp hn hlists⟩
    · obtain ⟨f, hf, hgets⟩ := (describes_of_mem_detectResources hp).get.1 hget
      exact ⟨f, hf, hgets.unreserved, congrArg _ hgets.named.symm, .item hp hget hgets⟩
  · obtain ⟨hf, -, hr⟩ := mem_remainingQueries_iff.1 hf
    exact ⟨f, hf, hr, rfl, .own⟩

/-! ## Queries at routes of their own -/

theorem operationId_queryOperation : (queryOperation g f).operationId = some f.name :=
  (sameContents_annotate f _).operationId

/-- The identifier of a list is longer than the name of the query. -/
theorem queryEndpoint_ne_resourceList (hf : isName f.name = true) :
    queryEndpoint g f ≠ resourceList p := by
  intro heq
  have hplural : p.plural = f.name := (Origin.query.inj (congrArg Endpoint.origin heq)).symm
  have hidentifier : f.name = "list" ++ Text.capitalize p.plural :=
    Option.some.inj (operationId_queryOperation.symm.trans
      (congrArg (fun e : Endpoint => e.operation.operationId) heq))
  have hascii : Text.Ascii f.name := fun c hc => isNameChar_lt (isNameChar_of_mem hf hc)
  have hlength := congrArg (fun s : String => s.toList.length) hidentifier
  simp only [hplural, String.toList_append, Text.toList_capitalize hascii, List.length_append,
    List.length_modifyHead] at hlength
  have hlist : "list".toList.length = 4 := rfl
  omega

theorem queryEndpoint_ne_resourceItem (hf : isName f.name = true) (hp : '/' ∉ p.plural.toList) :
    queryEndpoint g f ≠ resourceItem p := by
  intro heq
  have hslash : '/' ∉ f.name.toList := not_mem_of_isName hf (by decide)
  exact slot_ne_of_place_ne (.atName .get f.name) (.below .get p.plural "id") hslash ⟨hp, by decide⟩
    (by simp) (congrArg slot heq)

theorem queryEndpoint_mem_queries_iff (hdistinct : (query.map Field.name).Nodup)
    (hnames : ∀ f ∈ query, isName f.name = true) (hf : f ∈ query) :
    queryEndpoint g f ∈ queries g (detectResources query mutation rules prefixes) query ↔
      f ∈ remainingQueries (detectResources query mutation rules prefixes) query := by
  rw [mem_queries_iff]
  constructor
  · rintro (⟨p, hp, he⟩ | ⟨f', hf', heq⟩)
    · rcases mem_readResource_iff.1 he with ⟨-, he⟩ | ⟨-, he⟩
      · exact absurd he (queryEndpoint_ne_resourceList (hnames f hf))
      · exact absurd he
          (queryEndpoint_ne_resourceItem (hnames f hf) (slash_not_mem_plural hnames hp))
    · have hname : f'.name = f.name := Origin.query.inj (congrArg Endpoint.origin heq)
      obtain rfl := List.inj_on_of_nodup_map hdistinct (mem_remainingQueries_iff.1 hf').1 hf hname
      exact hf'
  · exact fun h => .inr ⟨f, h, rfl⟩

theorem mem_remainingQueries_detectResources_iff (hf : f ∈ query) :
    f ∈ remainingQueries (detectResources query mutation rules prefixes) query ↔
      isReservedName f.name = false ∧
        (∀ p ∈ detectResources query mutation rules prefixes, p.plural ≠ f.name) ∧
        ∀ p ∈ detectResources query mutation rules prefixes,
          p.has .get = true → p.resource ≠ f.name := by
  rw [mem_remainingQueries_iff]
  constructor
  · rintro ⟨-, hfree, hr⟩
    refine ⟨hr, fun p hp hn => hfree p hp ?_, fun p hp hget hn => hfree p hp ?_⟩
    · exact mem_consumedQueries_iff.2 (.inl ⟨(supported_of_mem_detectResources hp).list, hn.symm⟩)
    · exact mem_consumedQueries_iff.2 (.inr ⟨hget, hn.symm⟩)
  · rintro ⟨hr, hplural, hresource⟩
    refine ⟨hf, fun p hp hconsumed => ?_, hr⟩
    rcases mem_consumedQueries_iff.1 hconsumed with ⟨-, hn⟩ | ⟨hget, hn⟩
    · exact hplural p hp hn.symm
    · exact hresource p hp hget hn.symm

/-- With the resources that are detected among them, queries lead to exact endpoints, whatever the
mutations and the options are. -/
theorem queries_exact (g : TypeGraph) (options : Options) (mutation : List Field)
    (hdistinct : (query.map Field.name).Nodup) (hnames : ∀ f ∈ query, isName f.name = true) :
    QueriesExact g options
      (detectResources query mutation options.inflection options.mutationPrefixes) query := by
  have hslots : (queries g (detectResources query mutation options.inflection options.mutationPrefixes)
      query).Pairwise fun e e' => e.slot ≠ e'.slot := pairwise_queries hdistinct hnames
  constructor
  · exact List.pairwise_map.2 (pairwise_plural_detectResources hdistinct)
  · intro p hp
    obtain ⟨f, hf, hn, -⟩ := exists_lists hp
    exact ⟨f, hf, hn.symm⟩
  · refine List.pairwise_map.2 (hslots.imp fun hne heq => hne ?_)
    obtain ⟨hpath, hmethod⟩ := Prod.mk.inj heq
    exact Prod.ext (Options.path_inj.1 hpath) hmethod
  · exact fun _ _ _ _ _ => mem_operations_writeAll hslots
  · exact fun f hf hr => exists_represented hdistinct hf hr
  · intro f hf
    rw [queryEndpoint_mem_queries_iff hdistinct hnames hf, mem_remainingQueries_detectResources_iff hf]
  · exact fun e he => exists_of_mem_queries he

open Conversion

/-- Users are a resource, as they are listed and created, and can be had one by one. -/
def addressBook : String :=
  "type Query \x7b users: [User] ping: Int user(id: ID): User \x7d type User \x7b name: String \x7d " ++
  "type Mutation \x7b createUser: User \x7d"

theorem addressBook_queries_exact : ∃ g, TypeGraph.ofSource? addressBook.toList = some g ∧
    QueriesExact g {} (resourcesOf g {}) (queryFields g) ∧
    (queries g (resourcesOf g {}) (queryFields g)).map slot =
      [("/users", .get), ("/users/\x7bid\x7d", .get), ("/ping", .get)] := by
  obtain ⟨g, hg, hdistinct, hnames, hslots⟩ := exists_graph addressBook
    (fun g => ((queryFields g).map Field.name).Nodup ∧ (∀ f ∈ queryFields g, isName f.name = true) ∧
      (queries g (resourcesOf g {}) (queryFields g)).map slot =
        [("/users", .get), ("/users/\x7bid\x7d", .get), ("/ping", .get)]) (by decide +kernel)
  exact ⟨g, hg, queries_exact g {} (mutationFields g) hdistinct hnames, hslots⟩

end Endpoint

end GraphRest
