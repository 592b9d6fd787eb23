import GraphRest.Proofs.Endpoint.Emitted

/-!
# Endpoints at the same place

Two endpoints of a conversion are written to the same slot only if one of them overwrites the other, in
one of five ways; the later one is always of the kind that overwrites. A parameter below a name is the `id`
of an item of a resource, or what a subscription puts into its path.
-/

namespace GraphRest.Endpoint

open Sdl Conversion

section

variable {g : TypeGraph} {options : Options} {s s' : Stage} {pl pl' : Place} {e e' : Endpoint}

/-- An endpoint takes the slot of another one, for a different field. -/
inductive Overwrites (g : TypeGraph) (rules : InflectionRules) : Endpoint → Endpoint → Prop where
  /-- A subscription without an argument that excludes null has the name of a resource's list. -/
  | streamOverList {p : ResourcePattern} {f : Field} : f.name = p.plural → pathArgument? f = none →
      Overwrites g rules (subscriptionEndpoint g f) (resourceList p)
  /-- A subscription without an argument that excludes null has the name of a query. -/
  | streamOverQuery {q f : Field} : f.name = q.name → pathArgument? f = none →
      Overwrites g rules (subscriptionEndpoint g f) (queryEndpoint g q)
  /-- A subscription has the name of a resource's list and an `id` in its path. -/
  | streamOverItem {p : ResourcePattern} {f : Field} {a : InputValue} : f.name = p.plural →
      pathArgument? f = some a → a.name = "id" →
      Overwrites g rules (subscriptionEndpoint g f) (resourceItem p)
  /-- Two owners have the same collection, and both have a list of that name. -/
  | memberOverMember {owner owner' : String} {f f' : Field} : owner' ≠ owner →
      collectionName rules owner' = collectionName rules owner → f'.name = f.name →
      Overwrites g rules (memberEndpoint rules owner' f') (memberEndpoint rules owner f)
  /-- A mutation has the name of the list of a resource that another mutation creates. -/
  | mutationOverCreate {p : ResourcePattern} {f m : Field} : m.name = p.plural → m.name ≠ f.name →
      Overwrites g rules (mutationEndpoint g m) (changeResource g p .create f)

theorem streamPlace_of_none {f : Field} (h : pathArgument? f = none) :
    streamPlace f = .atName .get f.name := by
  rw [streamPlace, h]

theorem streamPlace_of_some {f : Field} {a : InputValue} (h : pathArgument? f = some a) :
    streamPlace f = .below .get f.name a.name := by
  rw [streamPlace, h]

theorem Overwrites.slot_eq {rules : InflectionRules} (h : Overwrites g rules e e') :
    e.slot = e'.slot := by
  cases h with
  | streamOverList hn ha => simp [slot, subscriptionEndpoint, subscriptionRoute, ha, hn, resourceList]
  | streamOverQuery hn ha => simp [slot, subscriptionEndpoint, subscriptionRoute, ha, hn, queryEndpoint]
  | streamOverItem hn ha hid =>
      simp [slot, subscriptionEndpoint, subscriptionRoute, ha, hn, hid, resourceItem, itemRoute]
  | memberOverMember _ hc hn => simp [slot, memberEndpoint, hc, hn]
  | mutationOverCreate hn _ => simp [slot, mutationEndpoint, changeResource, hn]

theorem Overwrites.origin_ne {rules : InflectionRules} (h : Overwrites g rules e e') :
    e.origin ≠ e'.origin := by
  cases h with
  | memberOverMember ho _ _ => simp [memberEndpoint, ho]
  | mutationOverCreate _ hf => simpa [mutationEndpoint, changeResource] using hf
  | _ => simp [subscriptionEndpoint, resourceList, queryEndpoint, resourceItem]

/-- Nothing overwrites a stream. -/
theorem Overwrites.origin_ne_stream {rules : InflectionRules} {n : String}
    (h : Overwrites g rules e' e) : e.origin ≠ .subscription n := by
  cases h <;> exact fun ho => by cases ho

/-- Only streams overwrite the endpoints of queries. -/
theorem Overwrites.exists_stream {rules : InflectionRules} {n : String}
    (h : Overwrites g rules e' e) (ho : e.origin = .query n) : ∃ m, e'.origin = .subscription m := by
  cases h with
  | memberOverMember _ _ _ => cases ho
  | mutationOverCreate _ _ => cases ho
  | _ => exact ⟨_, rfl⟩

/-- Only other mutations overwrite the endpoints of mutations. -/
theorem Overwrites.exists_mutation {rules : InflectionRules} {n : String}
    (h : Overwrites g rules e' e) (ho : e.origin = .mutation n) :
    ∃ m, m.name ≠ n ∧ e' = mutationEndpoint g m := by
  cases h with
  | mutationOverCreate _ hne => exact ⟨_, Origin.mutation.inj ho ▸ hne, rfl⟩
  | _ => cases ho

/-! ## One stage -/

theorem changePlace_inj {prefixes : MutationPrefixes} {start start' : String}
    {kind kind' : CrudOperation} {p p' : ResourcePattern} (hk : (start, kind) ∈ prefixes.operations)
    (hk' : (start', kind') ∈ prefixes.operations) (h : changePlace p kind = changePlace p' kind') :
    p.plural = p'.plural ∧ kind = kind' ∧ start = start' := by
  rcases MutationPrefixes.mem_operations_iff.1 hk with ⟨rfl, rfl⟩ | ⟨rfl, rfl⟩ | ⟨rfl, rfl⟩ <;>
    rcases MutationPrefixes.mem_operations_iff.1 hk' with ⟨rfl, rfl⟩ | ⟨rfl, rfl⟩ | ⟨rfl, rfl⟩ <;>
    simp_all [changePlace]

theorem streamPlace_name {f f' : Field} (h : streamPlace f = streamPlace f') : f.name = f'.name := by
  unfold streamPlace at h
  cases ha : pathArgument? f <;> cases ha' : pathArgument? f' <;> simp_all

theorem eq_of_pattern_plural (hg : g.Lawful) {p p' : ResourcePattern} (hp : p ∈ patternsOf g options)
    (hp' : p' ∈ patternsOf g options) (h : p.plural = p'.plural) : p = p' :=
  eq_of_plural_eq (hg.rootFields g.roots.query).1 (mem_patternsOf hp) (mem_patternsOf hp') h

theorem eq_of_member (hg : g.Lawful) {d d' : TypeDefinition} {is is' : List String}
    {fs fs' : List Field} {f f' : Field} (hd : d ∈ g.types) (hd' : d' ∈ g.types)
    (hb : d.body = .object is fs) (hb' : d'.body = .object is' fs') (hf : f ∈ fs) (hf' : f' ∈ fs')
    (howner : d.name = d'.name) (hname : f.name = f'.name) : f = f' := by
  have hmem := List.mem_append_left g.builtIn hd
  obtain rfl : d = d' := List.inj_on_of_nodup_map hg.distinct_types hmem
    (List.mem_append_left _ hd') howner
  have hdistinct := hg.distinct_members d hmem
  rw [hb] at hb' hdistinct
  cases hb'
  exact List.inj_on_of_nodup_map hdistinct.2 hf hf' hname

/-- Within a stage only members of different owners are written to one place. -/
theorem Emitted.collision_of_stage (hg : g.Lawful) (he : Emitted g options s pl e)
    (he' : Emitted g options s pl' e') (hpl : pl = pl') :
    e = e' ∨ Overwrites g options.inflection e' e := by
  cases he with
  | list hp =>
      cases he' with
      | list hp' =>
          simp only [Place.atName.injEq, true_and] at hpl
          exact Or.inl (by rw [eq_of_pattern_plural hg hp hp' hpl])
      | item _ _ => cases hpl
  | item hp _ =>
      cases he' with
      | list _ => cases hpl
      | item hp' _ =>
          simp only [Place.below.injEq, true_and, and_true] at hpl
          exact Or.inl (by rw [eq_of_pattern_plural hg hp hp' hpl])
  | query hf =>
      cases he' with
      | query hf' =>
          simp only [Place.atName.injEq, true_and] at hpl
          have hmem := (mem_remainingQueries_iff.1 hf).1
          have hmem' := (mem_remainingQueries_iff.1 hf').1
          exact Or.inl (by rw [hg.eq_of_name_eq hmem hmem' hpl])
  | @member d _ _ f hd _ hb hf _ =>
      cases he' with
      | @member d' _ _ f' hd' _ hb' hf' _ =>
          simp only [Place.member.injEq] at hpl
          by_cases howner : d.name = d'.name
          · left
            rw [eq_of_member hg hd hd' hb hb' hf hf' howner hpl.2, howner]
          · exact Or.inr (.memberOverMember (Ne.symm howner) hpl.1.symm hpl.2.symm)
  | change hp hs _ hf hn =>
      cases he' with
      | change hp' hs' _ hf' hn' =>
          obtain ⟨hplural, rfl, rfl⟩ := changePlace_inj hs hs' hpl
          obtain rfl := eq_of_pattern_plural hg hp hp' hplural
          exact Or.inl (by rw [hg.eq_of_name_eq hf hf' (hn.trans hn'.symm)])
  | mutation hf =>
      cases he' with
      | mutation hf' =>
          simp only [Place.atName.injEq, true_and] at hpl
          have hmem := (mem_remainingMutations_iff.1 hf).1
          have hmem' := (mem_remainingMutations_iff.1 hf').1
          exact Or.inl (by rw [hg.eq_of_name_eq hmem hmem' hpl])
  | stream hf _ =>
      cases he' with
      | stream hf' _ =>
          exact Or.inl (by rw [hg.eq_of_name_eq hf hf' (streamPlace_name hpl)])

/-! ## Two stages -/

theorem changePlace_eq_atName {p : ResourcePattern} {kind : CrudOperation} {m : Method} {n : String}
    {prefixes : MutationPrefixes} {start : String} (hs : (start, kind) ∈ prefixes.operations)
    (h : changePlace p kind = .atName m n) : m = .post ∧ kind = .create ∧ p.plural = n := by
  rcases MutationPrefixes.mem_operations_iff.1 hs with ⟨rfl, rfl⟩ | ⟨rfl, rfl⟩ | ⟨rfl, rfl⟩
  · simp only [changePlace, Place.atName.injEq] at h
    exact ⟨h.1.symm, rfl, h.2⟩
  · cases h
  · cases h

theorem changePlace_ne_get {p : ResourcePattern} {kind : CrudOperation} {n a : String} :
    changePlace p kind ≠ .atName .get n ∧ changePlace p kind ≠ .below .get n a ∧
      ∀ f, changePlace p kind ≠ .member n f := by
  cases kind <;> simp [changePlace]

theorem streamPlace_eq_atName {f : Field} {m : Method} {n : String}
    (h : streamPlace f = .atName m n) : m = .get ∧ f.name = n ∧ pathArgument? f = none := by
  cases ha : pathArgument? f with
  | none =>
      rw [streamPlace_of_none ha] at h
      cases h
      exact ⟨rfl, rfl, rfl⟩
  | some a => rw [streamPlace_of_some ha] at h; cases h

theorem streamPlace_eq_below {f : Field} {m : Method} {n b : String}
    (h : streamPlace f = .below m n b) :
    m = .get ∧ f.name = n ∧ ∃ a, pathArgument? f = some a ∧ a.name = b := by
  cases ha : pathArgument? f with
  | none => rw [streamPlace_of_none ha] at h; cases h
  | some a =>
      rw [streamPlace_of_some ha] at h
      cases h
      exact ⟨rfl, rfl, a, rfl, rfl⟩

theorem streamPlace_ne_member {f : Field} {c n : String} : streamPlace f ≠ .member c n := by
  cases ha : pathArgument? f with
  | none => rw [streamPlace_of_none ha]; exact fun h => by cases h
  | some a => rw [streamPlace_of_some ha]; exact fun h => by cases h

/-- A stream takes the place of a query, and of nothing else that is written before it. -/
theorem Emitted.collision_of_stream {f : Field} (he : Emitted g options s pl e)
    (hs : s.rank < Stage.subscriptions.rank) (hpl : pl = streamPlace f) :
    Overwrites g options.inflection (subscriptionEndpoint g f) e := by
  cases he with
  | list _ =>
      obtain ⟨-, hn, ha⟩ := streamPlace_eq_atName hpl.symm
      exact .streamOverList hn ha
  | item _ _ =>
      obtain ⟨-, hn, a, ha, hid⟩ := streamPlace_eq_below hpl.symm
      exact .streamOverItem hn ha hid
  | query _ =>
      obtain ⟨-, hn, ha⟩ := streamPlace_eq_atName hpl.symm
      exact .streamOverQuery hn ha
  | member _ _ _ _ _ => exact absurd hpl.symm streamPlace_ne_member
  | @change p _ kind _ _ _ _ _ _ =>
      cases ha : pathArgument? f with
      | none => exact absurd (hpl.trans (streamPlace_of_none ha)) (changePlace_ne_get (a := "")).1
      | some a => exact absurd (hpl.trans (streamPlace_of_some ha)) changePlace_ne_get.2.1
  | mutation _ => cases (streamPlace_eq_atName hpl.symm).1
  | stream _ _ => exact absurd hs (Nat.lt_irrefl _)

/-- A mutation takes the place of a creation, and of nothing else that is written before it. -/
theorem Emitted.collision_of_mutation {m : Field}
    (hm : m ∈ remainingMutations options.mutationPrefixes (patternsOf g options) (mutationFields g))
    (he : Emitted g options s pl e) (hs : s.rank < Stage.mutations.rank)
    (hpl : pl = .atName .post m.name) :
    Overwrites g options.inflection (mutationEndpoint g m) e := by
  cases he with
  | @change p start kind f hp hstart hk hf hn =>
      obtain ⟨-, rfl, hplural⟩ := changePlace_eq_atName hstart hpl
      refine .mutationOverCreate hplural.symm fun hname => ?_
      exact (mem_remainingMutations_iff.1 hm).2.1
        ⟨p, hp, start, .create, hstart, hk, hname.trans hn⟩
  | mutation _ => exact absurd hs (Nat.lt_irrefl _)
  | stream _ _ => exact absurd hs (by decide)
  | _ => cases hpl

/-- Of two endpoints at one place the one of the later stage overwrites the other. -/
theorem Emitted.collision_of_rank_lt (he : Emitted g options s pl e)
    (he' : Emitted g options s' pl' e') (hs : s.rank < s'.rank) (hpl : pl = pl') :
    Overwrites g options.inflection e' e := by
  -- The form of the place and the method leave few kinds for the earlier endpoint.
  cases he' with
  | list _ => exact absurd hs (Nat.not_lt_zero _)
  | item _ _ => exact absurd hs (Nat.not_lt_zero _)
  | @query f hf =>
      cases he with
      | @list p hp =>
          simp only [Place.atName.injEq, true_and] at hpl
          have hconsumed := (mem_remainingQueries_iff.1 hf).2.1 p hp
          have hlist := (supported_of_mem_patternsOf hp).list
          exact absurd (mem_consumedQueries_iff.2 (Or.inl ⟨hlist, hpl.symm⟩)) hconsumed
      | item _ _ => cases hpl
      | query _ => exact absurd hs (Nat.lt_irrefl _)
      | _ => exact absurd hs (by decide)
  | member _ _ _ _ _ =>
      cases he with
      | change _ _ _ _ _ => exact absurd hs (by decide)
      | stream _ _ => exact absurd hs (by decide)
      | member _ _ _ _ _ => exact absurd hs (Nat.lt_irrefl _)
      | _ => cases hpl
  | @change p _ kind _ _ _ _ _ _ =>
      cases he with
      | list _ => exact absurd hpl.symm (changePlace_ne_get (a := "")).1
      | item _ _ => exact absurd hpl.symm changePlace_ne_get.2.1
      | query _ => exact absurd hpl.symm (changePlace_ne_get (a := "")).1
      | member _ _ _ _ _ => exact absurd hpl.symm ((changePlace_ne_get (a := "")).2.2 _)
      | change _ _ _ _ _ => exact absurd hs (Nat.lt_irrefl _)
      | _ => exact absurd hs (by decide)
  | mutation hm => exact he.collision_of_mutation hm hs hpl
  | stream _ _ => exact he.collision_of_stream hs hpl

theorem Stage.eq_of_rank_eq (h : s.rank = s'.rank) : s = s' := by
  cases s <;> cases s' <;> simp_all [rank]

theorem Emitted.collision (hg : g.Lawful) (he : Emitted g options s pl e)
    (he' : Emitted g options s' pl' e') (hs : s.rank ≤ s'.rank) (hslot : e.slot = e'.slot) :
    e = e' ∨ Overwrites g options.inflection e' e := by
  have hpl := he.place_eq hg he' hslot
  rcases Nat.lt_or_eq_of_le hs with hlt | heq
  · exact Or.inr (he.collision_of_rank_lt he' hlt hpl)
  · obtain rfl := Stage.eq_of_rank_eq heq
    exact he.collision_of_stage hg he' hpl

/-- An endpoint that is written to the slot of an earlier one overwrites it. -/
theorem pairwise_overwrites (hg : g.Lawful) (options : Options) : (written g options).Pairwise fun e e' =>
    e.slot = e'.slot → e = e' ∨ Overwrites g options.inflection e' e := by
  refine (pairwise_written hg).imp ?_
  rintro e e' ⟨s, pl, s', pl', he, he', hs⟩ hslot
  exact he.collision hg he' hs hslot

end

/-! ## What stands below a name -/

variable {g : TypeGraph} {options : Options} {p : ResourcePattern} {m : Method} {n b : String}

/-- A single item of a resource is served by a method: it is read if a query gets it, and replaced or
deleted if the mutation for that is found. -/
inductive ServesItem (g : TypeGraph) (options : Options) (p : ResourcePattern) : Method → Prop where
  | read : p.has .get = true → ServesItem g options p .get
  | replace {f} : p.has .update = true → f ∈ mutationFields g →
      f.name = expectedMutation options.mutationPrefixes.update p → ServesItem g options p .put
  | delete {f} : p.has .delete = true → f ∈ mutationFields g →
      f.name = expectedMutation options.mutationPrefixes.delete p → ServesItem g options p .delete

/-- A subscription has a name, and an argument of some name in its path. -/
def StreamsBelow (g : TypeGraph) (n b : String) : Prop :=
  ∃ f ∈ subscriptionFields g, isReservedName f.name = false ∧ f.name = n ∧
    ∃ a, pathArgument? f = some a ∧ a.name = b

theorem serves_get_iff : ServesItem g options p .get ↔ p.has .get = true := by
  constructor
  · intro h
    cases h with
    | read h => exact h
  · exact .read

/-- The mutations on items are those that replace and delete. -/
theorem servesItem_of_change {start : String} {kind : CrudOperation} {f : Field}
    (hs : (start, kind) ∈ options.mutationPrefixes.operations) (hk : p.has kind = true)
    (hf : f ∈ mutationFields g) (hn : f.name = expectedMutation start p)
    (h : changePlace p kind = .below m n b) :
    p.plural = n ∧ b = "id" ∧ ServesItem g options p m := by
  rcases MutationPrefixes.mem_operations_iff.1 hs with ⟨rfl, rfl⟩ | ⟨rfl, rfl⟩ | ⟨rfl, rfl⟩
  · cases h
  · cases h
    exact ⟨rfl, rfl, .replace hk hf hn⟩
  · cases h
    exact ⟨rfl, rfl, .delete hk hf hn⟩

/-- An endpoint is written below a name just if it serves the items of the resource that has the name as
its plural, or streams what the subscription of that name tells. -/
theorem exists_emitted_below_iff : (∃ s e, Emitted g options s (.below m n b) e) ↔
    (b = "id" ∧ ∃ p ∈ patternsOf g options, p.plural = n ∧ ServesItem g options p m) ∨
      (m = .get ∧ StreamsBelow g n b) := by
  constructor
  · rintro ⟨s, e, he⟩
    generalize hpl : Place.below m n b = pl at he
    cases he with
    | @item p hp hget =>
        cases hpl
        exact Or.inl ⟨rfl, p, hp, rfl, .read hget⟩
    | @change p _ _ f hp hs hk hf hn =>
        obtain ⟨hplural, hid, hserves⟩ := servesItem_of_change hs hk hf hn hpl.symm
        exact Or.inl ⟨hid, p, hp, hplural, hserves⟩
    | @stream f hf hr =>
        obtain ⟨hm, hname, ha⟩ := streamPlace_eq_below hpl.symm
        exact Or.inr ⟨hm, f, hf, hr, hname, ha⟩
    | _ => cases hpl
  · rintro (⟨rfl, p, hp, rfl, hserves⟩ | ⟨rfl, f, hf, hr, rfl, a, ha, rfl⟩)
    · cases hserves with
      | read hget => exact ⟨_, _, .item hp hget⟩
      | replace hk hf hn =>
          exact ⟨_, _, .change hp (MutationPrefixes.mem_operations_iff.2 (.inr (.inl ⟨rfl, rfl⟩))) hk
            hf hn⟩
      | delete hk hf hn =>
          exact ⟨_, _, .change hp (MutationPrefixes.mem_operations_iff.2 (.inr (.inr ⟨rfl, rfl⟩))) hk
            hf hn⟩
    · have hstream : Emitted g options .subscriptions (streamPlace f) (subscriptionEndpoint g f) :=
        .stream hf hr
      rw [streamPlace_of_some ha] at hstream
      exact ⟨_, _, hstream⟩

end GraphRest.Endpoint
