import GraphRest.Proofs.Endpoint.Place
import GraphRest.Proofs.Resource.Patterns

/-!
# Which endpoints are written

Endpoints are written in six stages. `Emitted` says for each kind of endpoint in which stage, at which
place and for which field it is written; what a conversion writes is just that.
-/

namespace GraphRest

open Sdl

namespace Conversion

/-- The endpoints that a conversion writes, in order. -/
def written (g : TypeGraph) (options : Options) : List Endpoint :=
  endpoints g options (patternsOf g options)

end Conversion

namespace Endpoint

open Conversion

variable {g : TypeGraph} {options : Options}

/-! ## Fields that belong to no resource -/

theorem mem_consumedQueries_iff {p : ResourcePattern} {n : String} : n ∈ consumedQueries p ↔
    (p.has .list = true ∧ n = p.plural) ∨ (p.has .get = true ∧ n = p.resource) := by
  rw [consumedQueries, List.mem_append]
  split <;> split <;> simp [*]

theorem mem_remainingQueries_iff {ps : List ResourcePattern} {fs : List Field} {f : Field} :
    f ∈ remainingQueries ps fs ↔
      f ∈ fs ∧ (∀ p ∈ ps, f.name ∉ consumedQueries p) ∧ isReservedName f.name = false := by
  simp [remainingQueries, List.mem_filter]

theorem mem_expectedMutations_iff {prefixes : MutationPrefixes} {ps : List ResourcePattern}
    {e : ExpectedMutation} : e ∈ expectedMutations prefixes ps ↔
      e.pattern ∈ ps ∧ e.pattern.has e.kind = true ∧
        ∃ start, (start, e.kind) ∈ prefixes.operations ∧ e.name = expectedMutation start e.pattern := by
  rw [expectedMutations, List.mem_flatMap]
  constructor
  · rintro ⟨p, hp, h⟩
    obtain ⟨⟨start, kind⟩, hmem, rfl⟩ := List.mem_map.1 h
    obtain ⟨hs, hk⟩ := List.mem_filter.1 hmem
    exact ⟨hp, hk, start, hs, rfl⟩
  · rintro ⟨hp, hk, start, hs, hn⟩
    refine ⟨e.pattern, hp, List.mem_map.2 ⟨(start, e.kind), List.mem_filter.2 ⟨hs, hk⟩, ?_⟩⟩
    simp only [← hn]

/-- Whether a mutation stands behind a resource. -/
def ChangesResource (prefixes : MutationPrefixes) (ps : List ResourcePattern) (name : String) : Prop :=
  ∃ p ∈ ps, ∃ start kind, (start, kind) ∈ prefixes.operations ∧ p.has kind = true ∧
    name = expectedMutation start p

theorem mem_consumedMutations_iff {prefixes : MutationPrefixes} {ps : List ResourcePattern}
    {fs : List Field} {n : String} : n ∈ consumedMutations prefixes ps fs ↔
      (∃ f ∈ fs, f.name = n) ∧ ChangesResource prefixes ps n := by
  rw [consumedMutations, List.mem_filterMap]
  constructor
  · rintro ⟨e, he, hfound⟩
    obtain ⟨f, hf, rfl⟩ := Option.map_eq_some_iff.1 hfound
    have hname : f.name = e.name := by simpa using List.find?_some hf
    obtain ⟨hp, hk, start, hs, hn⟩ := mem_expectedMutations_iff.1 he
    exact ⟨⟨f, List.mem_of_find?_eq_some hf, rfl⟩, e.pattern, hp, start, e.kind, hs, hk,
      hname.trans hn⟩
  · rintro ⟨⟨f, hf, rfl⟩, p, hp, start, kind, hs, hk, hn⟩
    refine ⟨⟨p, kind, f.name⟩, mem_expectedMutations_iff.2 ⟨hp, hk, start, hs, hn⟩, ?_⟩
    cases hfind : fs.find? (·.name = f.name) with
    | none =>
        have := List.find?_eq_none.1 hfind f hf
        simp at this
    | some f' =>
        have hname : f'.name = f.name := by simpa using List.find?_some hfind
        simp [ExpectedMutation.field?, hfind, hname]

theorem mem_remainingMutations_iff {prefixes : MutationPrefixes} {ps : List ResourcePattern}
    {fs : List Field} {f : Field} : f ∈ remainingMutations prefixes ps fs ↔
      f ∈ fs ∧ ¬ ChangesResource prefixes ps f.name ∧ isReservedName f.name = false := by
  simp only [remainingMutations, List.mem_filter, Bool.and_eq_true, Bool.not_eq_true',
    List.contains_eq_mem, decide_eq_false_iff_not, mem_consumedMutations_iff]
  constructor
  · rintro ⟨hf, hc, hr⟩
    exact ⟨hf, fun h => hc ⟨⟨f, hf, rfl⟩, h⟩, hr⟩
  · rintro ⟨hf, hc, hr⟩
    exact ⟨hf, fun h => hc h.2, hr⟩

/-! ## Stages -/

/-- The stages in which endpoints are written. -/
inductive Stage where
  | resources
  | queries
  | members
  | changes
  | mutations
  | subscriptions
  deriving DecidableEq

namespace Stage

/-- All stages, in order. -/
def all : List Stage := [resources, queries, members, changes, mutations, subscriptions]

/-- The position of a stage. -/
def rank : Stage → Nat
  | resources => 0
  | queries => 1
  | members => 2
  | changes => 3
  | mutations => 4
  | subscriptions => 5

/-- What is written in a stage. -/
def endpoints (g : TypeGraph) (options : Options) : Stage → List Endpoint
  | resources => (patternsOf g options).flatMap readResource
  | queries => (remainingQueries (patternsOf g options) (queryFields g)).map (queryEndpoint g)
  | members => Endpoint.members g options.inflection
  | changes =>
      changeResources g options.mutationPrefixes (patternsOf g options) (mutationFields g)
  | mutations =>
      (remainingMutations options.mutationPrefixes (patternsOf g options) (mutationFields g)).map
        (mutationEndpoint g)
  | subscriptions => Endpoint.subscriptions g (subscriptionFields g)

theorem written_eq_flatMap : written g options = all.flatMap (endpoints g options) := by
  simp [written, Conversion.endpoints, Endpoint.mutations, all, endpoints,
    Endpoint.queries, List.append_assoc]

end Stage

/-- Where the endpoint of a mutation on a resource stands. -/
def changePlace (p : ResourcePattern) : CrudOperation → Place
  | .update => .below .put p.plural "id"
  | .delete => .below .delete p.plural "id"
  | _ => .atName .post p.plural

/-- Where a subscription stands. -/
def streamPlace (f : Field) : Place :=
  match pathArgument? f with
  | some a => .below .get f.name a.name
  | none => .atName .get f.name

/-- An endpoint is written in a stage and to a place. -/
inductive Emitted (g : TypeGraph) (options : Options) : Stage → Place → Endpoint → Prop where
  | list {p} : p ∈ patternsOf g options →
      Emitted g options .resources (.atName .get p.plural) (resourceList p)
  | item {p} : p ∈ patternsOf g options → p.has .get = true →
      Emitted g options .resources (.below .get p.plural "id") (resourceItem p)
  | query {f} : f ∈ remainingQueries (patternsOf g options) (queryFields g) →
      Emitted g options .queries (.atName .get f.name) (queryEndpoint g f)
  | member {d is fs f} : d ∈ g.types → isExposed g d = true → d.body = .object is fs → f ∈ fs →
      isCollection g f = true →
      Emitted g options .members (.member (collectionName options.inflection d.name) f.name)
        (memberEndpoint options.inflection d.name f)
  | change {p start kind f} : p ∈ patternsOf g options →
      (start, kind) ∈ options.mutationPrefixes.operations → p.has kind = true →
      f ∈ mutationFields g → f.name = expectedMutation start p →
      Emitted g options .changes (changePlace p kind) (changeResource g p kind f)
  | mutation {f} :
      f ∈ remainingMutations options.mutationPrefixes (patternsOf g options) (mutationFields g) →
      Emitted g options .mutations (.atName .post f.name) (mutationEndpoint g f)
  | stream {f} : f ∈ subscriptionFields g → isReservedName f.name = false →
      Emitted g options .subscriptions (streamPlace f) (subscriptionEndpoint g f)

theorem mem_readResource_iff {p : ResourcePattern} {e : Endpoint} : e ∈ readResource p ↔
    (p.has .list = true ∧ e = resourceList p) ∨ (p.has .get = true ∧ e = resourceItem p) := by
  rw [readResource, List.mem_append]
  split <;> split <;> simp [*]

theorem mem_members_iff {rules : InflectionRules} {e : Endpoint} : e ∈ members g rules ↔
    ∃ d ∈ g.types, isExposed g d = true ∧ ∃ is fs, d.body = .object is fs ∧
      ∃ f ∈ fs, isCollection g f = true ∧ e = memberEndpoint rules d.name f := by
  rw [members, List.mem_flatMap]
  constructor
  · rintro ⟨d, hd, he⟩
    obtain ⟨hd, hx⟩ := List.mem_filter.1 hd
    rw [membersOf] at he
    split at he
    · rename_i is fs hb
      obtain ⟨f, hf, rfl⟩ := List.mem_map.1 he
      obtain ⟨hf, hc⟩ := List.mem_filter.1 hf
      exact ⟨d, hd, hx, is, fs, hb, f, hf, hc, rfl⟩
    · cases he
  · rintro ⟨d, hd, hx, is, fs, hb, f, hf, hc, rfl⟩
    refine ⟨d, List.mem_filter.2 ⟨hd, hx⟩, ?_⟩
    rw [membersOf, hb]
    exact List.mem_map.2 ⟨f, List.mem_filter.2 ⟨hf, hc⟩, rfl⟩

theorem mem_changeResources_iff (hg : g.Lawful) {ps : List ResourcePattern} {e : Endpoint} :
    e ∈ changeResources g options.mutationPrefixes ps (mutationFields g) ↔
      ∃ p ∈ ps, ∃ start kind, (start, kind) ∈ options.mutationPrefixes.operations ∧
        p.has kind = true ∧ ∃ f ∈ mutationFields g, f.name = expectedMutation start p ∧
          e = changeResource g p kind f := by
  have hnames : ((mutationFields g).map Field.name).Nodup := (hg.rootFields _).1
  rw [changeResources, List.mem_filterMap]
  constructor
  · rintro ⟨x, hx, he⟩
    obtain ⟨f, hf, rfl⟩ := Option.map_eq_some_iff.1 he
    obtain ⟨hp, hk, start, hs, hn⟩ := mem_expectedMutations_iff.1 hx
    obtain ⟨hf, hname⟩ := (find?_key_eq_some_iff hnames).1 hf
    exact ⟨x.pattern, hp, start, x.kind, hs, hk, f, hf, hname.trans hn, rfl⟩
  · rintro ⟨p, hp, start, kind, hs, hk, f, hf, hn, rfl⟩
    refine ⟨⟨p, kind, f.name⟩, mem_expectedMutations_iff.2 ⟨hp, hk, start, hs, hn⟩, ?_⟩
    exact Option.map_eq_some_iff.2 ⟨f, (find?_key_eq_some_iff hnames).2 ⟨hf, rfl⟩, rfl⟩

theorem mem_stage_iff (hg : g.Lawful) {s : Stage} {e : Endpoint} :
    e ∈ s.endpoints g options ↔ ∃ pl, Emitted g options s pl e := by
  constructor
  · intro he
    cases s with
    | resources =>
        obtain ⟨p, hp, he⟩ := List.mem_flatMap.1 he
        rcases mem_readResource_iff.1 he with ⟨-, rfl⟩ | ⟨hget, rfl⟩
        · exact ⟨_, .list hp⟩
        · exact ⟨_, .item hp hget⟩
    | queries =>
        obtain ⟨f, hf, rfl⟩ := List.mem_map.1 he
        exact ⟨_, .query hf⟩
    | members =>
        obtain ⟨d, hd, hx, is, fs, hb, f, hf, hc, rfl⟩ := mem_members_iff.1 he
        exact ⟨_, .member hd hx hb hf hc⟩
    | changes =>
        obtain ⟨p, hp, start, kind, hs, hk, f, hf, hn, rfl⟩ := (mem_changeResources_iff hg).1 he
        exact ⟨_, .change hp hs hk hf hn⟩
    | mutations =>
        obtain ⟨f, hf, rfl⟩ := List.mem_map.1 he
        exact ⟨_, .mutation hf⟩
    | subscriptions =>
        obtain ⟨f, hf, rfl⟩ := List.mem_map.1 he
        obtain ⟨hf, hr⟩ := List.mem_filter.1 hf
        exact ⟨_, .stream hf (by simpa using hr)⟩
  · rintro ⟨pl, he⟩
    cases he with
    | list hp =>
        exact List.mem_flatMap.2 ⟨_, hp, mem_readResource_iff.2
          (Or.inl ⟨(supported_of_mem_patternsOf hp).list, rfl⟩)⟩
    | item hp hget =>
        exact List.mem_flatMap.2 ⟨_, hp, mem_readResource_iff.2 (Or.inr ⟨hget, rfl⟩)⟩
    | query hf => exact List.mem_map_of_mem hf
    | member hd hx hb hf hc => exact mem_members_iff.2 ⟨_, hd, hx, _, _, hb, _, hf, hc, rfl⟩
    | change hp hs hk hf hn =>
        exact (mem_changeResources_iff hg).2 ⟨_, hp, _, _, hs, hk, _, hf, hn, rfl⟩
    | mutation hf => exact List.mem_map_of_mem hf
    | stream hf hr => exact List.mem_map_of_mem (List.mem_filter.2 ⟨hf, by simpa using hr⟩)

/-- What a conversion writes, kind by kind. -/
theorem mem_written_iff (hg : g.Lawful) {e : Endpoint} :
    e ∈ written g options ↔ ∃ s pl, Emitted g options s pl e := by
  rw [Stage.written_eq_flatMap, List.mem_flatMap]
  constructor
  · rintro ⟨s, -, he⟩
    exact ⟨s, (mem_stage_iff hg).1 he⟩
  · rintro ⟨s, h⟩
    exact ⟨s, by cases s <;> decide, (mem_stage_iff hg).2 h⟩

/-! ## Places -/

variable {s : Stage} {pl : Place} {e : Endpoint}

theorem slot_changeResource {p : ResourcePattern} {kind : CrudOperation} {f : Field} :
    (changeResource g p kind f).slot = (changePlace p kind).slot := by
  cases kind <;> rfl

theorem Emitted.slot_eq (h : Emitted g options s pl e) : e.slot = pl.slot := by
  cases h with
  | list _ => rfl
  | item _ _ => rfl
  | query _ => rfl
  | member _ _ _ _ _ => rfl
  | change _ _ _ _ _ => exact slot_changeResource
  | mutation _ => rfl
  | @stream f _ _ =>
      unfold streamPlace slot subscriptionEndpoint subscriptionRoute
      cases pathArgument? f <;> rfl

theorem isName_plural (hg : g.Lawful) {rules : InflectionRules} {prefixes : MutationPrefixes}
    {p : ResourcePattern}
    (hp : p ∈ detectResources (queryFields g) (mutationFields g) rules prefixes) :
    isName p.plural = true := by
  obtain ⟨f, hf, hn, -⟩ := (supported_of_mem_detectResources hp).listed
  rw [← hn]
  exact isName_of_mem_rootFields hg hf

theorem isName_of_mem_changePlace {p : ResourcePattern} {kind : CrudOperation}
    (h : isName p.plural = true) : ∀ n ∈ (changePlace p kind).names, isName n = true := by
  have hid : isName "id" = true := by decide
  cases kind <;> simpa [changePlace, Place.names, hid] using h

theorem Emitted.isName_of_mem (hg : g.Lawful) (h : Emitted g options s pl e) :
    ∀ n ∈ pl.names, isName n = true := by
  have hid : isName "id" = true := by decide
  cases h with
  | list hp => simpa [Place.names] using isName_plural hg (mem_patternsOf hp)
  | item hp _ => simpa [Place.names, hid] using isName_plural hg (mem_patternsOf hp)
  | query hf => simpa [Place.names] using isName_of_mem_rootFields hg (mem_remainingQueries_iff.1 hf).1
  | member hd _ hb hf _ => simpa [Place.names] using isName_of_mem_members hg hd hb hf
  | change hp _ _ _ _ => exact isName_of_mem_changePlace (isName_plural hg (mem_patternsOf hp))
  | mutation hf =>
      simpa [Place.names] using isName_of_mem_rootFields hg (mem_remainingMutations_iff.1 hf).1
  | @stream f hf _ =>
      have hname := isName_of_mem_rootFields hg hf
      unfold streamPlace
      cases ha : pathArgument? f with
      | none => simpa [Place.names] using hname
      | some a =>
          have hargument := isName_of_mem_arguments hg hf (List.mem_of_find?_eq_some ha)
          simpa [Place.names] using ⟨hname, hargument⟩

theorem Emitted.legal (hg : g.Lawful) (h : Emitted g options s pl e) : pl.Legal :=
  Place.legal_of_names (h.isName_of_mem hg)

theorem Emitted.place_eq (hg : g.Lawful) {s' : Stage} {pl' : Place} {e' : Endpoint}
    (h : Emitted g options s pl e) (h' : Emitted g options s' pl' e') (hs : e.slot = e'.slot) :
    pl = pl' :=
  Place.slot_inj (h.legal hg) (h'.legal hg) (by rw [← h.slot_eq, hs, h'.slot_eq])

/-! ## Order -/

/-- An endpoint that is written before another one is written in no later stage. -/
theorem pairwise_written (hg : g.Lawful) : (written g options).Pairwise fun e e' =>
    ∃ s pl s' pl', Emitted g options s pl e ∧ Emitted g options s' pl' e' ∧ s.rank ≤ s'.rank := by
  rw [Stage.written_eq_flatMap, List.pairwise_flatMap]
  constructor
  · intro s _
    refine List.pairwise_of_forall_mem_list fun e he e' he' => ?_
    obtain ⟨pl, he⟩ := (mem_stage_iff hg).1 he
    obtain ⟨pl', he'⟩ := (mem_stage_iff hg).1 he'
    exact ⟨s, pl, s, pl', he, he', Nat.le_refl _⟩
  · have hrank : Stage.all.Pairwise fun s s' => s.rank ≤ s'.rank := by decide
    refine hrank.imp fun hle e he e' he' => ?_
    obtain ⟨pl, he⟩ := (mem_stage_iff hg).1 he
    obtain ⟨pl', he'⟩ := (mem_stage_iff hg).1 he'
    exact ⟨_, pl, _, pl', he, he', hle⟩

end Endpoint

end GraphRest
