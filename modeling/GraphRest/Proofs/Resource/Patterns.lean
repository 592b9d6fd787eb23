import GraphRest.Conversion.Basic
import GraphRest.Proofs.Data.Last
import GraphRest.Proofs.Data.SortedMap
import GraphRest.Proofs.Sdl.Lawful

/-!
# What detected resources stand for

Every operation that a candidate is said to have for reading goes back to a query field. One step of the
scan keeps this, so it holds of the detected resources; two of them never share a name or a plural. A
resource has the type that the last of its queries gives it, whether this is the query for its list or the
one for a single item.
-/

namespace GraphRest

open Sdl

variable {query mutation : List Field} {rules : InflectionRules} {prefixes : MutationPrefixes}

theorem MutationPrefixes.mem_operations_iff {start : String} {kind : CrudOperation} :
    (start, kind) ∈ prefixes.operations ↔ (start = prefixes.create ∧ kind = .create) ∨
      (start = prefixes.update ∧ kind = .update) ∨ (start = prefixes.delete ∧ kind = .delete) := by
  simp [MutationPrefixes.operations]

/-! ## Candidates -/

/-- The query field that a list of a resource comes from. -/
def ListedBy (rules : InflectionRules) (resource : String) (f : Field) : Prop :=
  isReservedName f.name = false ∧ ∃ element, listedResource? rules f = some (resource, element)

/-- The query field that gets a single resource. -/
def GottenBy (rules : InflectionRules) (resource : String) (f : Field) : Prop :=
  isReservedName f.name = false ∧ f.name = resource ∧ getsById rules f = true

/-- What the queries of a schema have to say for a candidate. -/
structure Candidate.Supported (query : List Field) (rules : InflectionRules) (resource : String)
    (c : Candidate) : Prop where
  list : c.operations.list = true → ∃ f ∈ query, f.name = c.plural ∧ ListedBy rules resource f
  get : c.operations.get = true → ∃ f ∈ query, GottenBy rules resource f

/-- All candidates are supported. -/
def Candidates.Supported (query : List Field) (rules : InflectionRules) (cs : Candidates) : Prop :=
  ∀ resource c, cs.get? resource = some c → c.Supported query rules resource

theorem Candidates.supported_empty : Supported query rules .empty := by
  intro resource c h
  cases h

theorem Candidates.Supported.upsert {cs : Candidates} (h : Supported query rules cs)
    {resource : String} {f : Option Candidate → Candidate}
    (hf : ∀ c, (∀ old, c = some old → old.Supported query rules resource) →
      (f c).Supported query rules resource) :
    Supported query rules (cs.upsert resource f) := by
  intro r c hc
  rw [SortedMap.get?_upsert] at hc
  split at hc
  · rename_i hr
    cases hc
    subst hr
    exact hf _ fun old hold => h r old hold
  · exact h r c hc

theorem Candidates.Supported.noteList {cs : Candidates} (h : Supported query rules cs) {f : Field}
    (hf : f ∈ query) (hr : isReservedName f.name = false) :
    Supported query rules (noteList rules f cs) := by
  unfold GraphRest.noteList
  split
  · rename_i resource element hl
    refine h.upsert fun c hc => ⟨fun _ => ⟨f, hf, rfl, hr, element, hl⟩, fun hget => ?_⟩
    cases c with
    | none => cases hget
    | some old => exact (hc old rfl).get hget
  · exact h

theorem Candidates.Supported.noteGet {cs : Candidates} (h : Supported query rules cs) {f : Field}
    (hf : f ∈ query) (hr : isReservedName f.name = false) :
    Supported query rules (noteGet rules f cs) := by
  unfold GraphRest.noteGet
  split
  · rename_i hg
    refine h.upsert fun c hc => ⟨fun hlist => ?_, fun _ => ⟨f, hf, hr, rfl, hg⟩⟩
    cases c with
    | none => cases hlist
    | some old => exact (hc old rfl).list hlist
  · exact h

theorem Candidates.Supported.noteQuery {cs : Candidates} (h : Supported query rules cs) {f : Field}
    (hf : f ∈ query) : Supported query rules (noteQuery rules cs f) := by
  unfold GraphRest.noteQuery
  split
  · exact h
  · rename_i hr
    have hr : isReservedName f.name = false := by simpa using hr
    exact (h.noteList hf hr).noteGet hf hr

/-- Mutations add operations that change a resource, and those need no support. -/
theorem Candidates.Supported.noteMutation {cs : Candidates} (h : Supported query rules cs)
    (name : String) {start : String × CrudOperation} (hs : start ∈ prefixes.operations) :
    Supported query rules (noteMutation cs name start) := by
  unfold GraphRest.noteMutation
  split
  · rename_i changed _
    intro resource c hc
    rw [SortedMap.get?_mapValues, Option.map_eq_some_iff] at hc
    obtain ⟨old, hold, rfl⟩ := hc
    have hsupp := h resource old hold
    split
    · simp only [MutationPrefixes.operations, List.mem_cons, List.not_mem_nil, or_false] at hs
      rcases hs with rfl | rfl | rfl <;> exact ⟨hsupp.list, hsupp.get⟩
    · exact hsupp
  · exact h

theorem Candidates.supported (query mutation : List Field) (rules : InflectionRules)
    (prefixes : MutationPrefixes) :
    Supported query rules (candidates query mutation rules prefixes) := by
  unfold candidates
  refine List.foldlRecOn mutation _ ?_ fun cs h f _ => ?_
  · exact List.foldlRecOn query _ supported_empty fun cs h f hf => h.noteQuery hf
  · exact List.foldlRecOn prefixes.operations _ h fun cs h start hs => h.noteMutation f.name hs

/-! ## Patterns -/

theorem mem_completePatterns_iff {cs : Candidates} {p : ResourcePattern} :
    p ∈ completePatterns cs ↔
      ∃ c, cs.get? p.resource = some c ∧ c.isComplete = true ∧ p.plural = c.plural ∧
        p.target = c.target ∧ p.operations = c.operations := by
  rw [completePatterns, List.mem_map]
  constructor
  · rintro ⟨⟨resource, c⟩, h, rfl⟩
    obtain ⟨hmem, hc⟩ := List.mem_filter.1 h
    exact ⟨c, SortedMap.mem_entries_iff.1 hmem, hc, rfl, rfl, rfl⟩
  · rintro ⟨c, hget, hc, hp, ht, ho⟩
    refine ⟨(p.resource, c), List.mem_filter.2 ⟨SortedMap.mem_entries_iff.2 hget, hc⟩, ?_⟩
    simp only [← hp, ← ht, ← ho]

/-- What the fields of a schema have to say for a resource. -/
structure ResourcePattern.Supported (query : List Field) (rules : InflectionRules)
    (p : ResourcePattern) : Prop where
  list : p.has .list = true
  create : p.has .create = true
  listed : ∃ f ∈ query, f.name = p.plural ∧ ListedBy rules p.resource f
  gotten : p.has .get = true → ∃ f ∈ query, GottenBy rules p.resource f

theorem supported_of_mem_detectResources {p : ResourcePattern}
    (hp : p ∈ detectResources query mutation rules prefixes) : p.Supported query rules := by
  obtain ⟨c, hget, hc, hplural, -, ho⟩ := mem_completePatterns_iff.1 hp
  have hsupp := Candidates.supported query mutation rules prefixes p.resource c hget
  have hc : c.operations.list = true ∧ c.operations.create = true := by
    simpa [Candidate.isComplete] using hc
  constructor
  · rw [ResourcePattern.has, ho]; exact hc.1
  · rw [ResourcePattern.has, ho]; exact hc.2
  · rw [hplural]; exact hsupp.list hc.1
  · rw [ResourcePattern.has, ho]; exact hsupp.get

theorem eq_of_resource_eq {p p' : ResourcePattern}
    (hp : p ∈ detectResources query mutation rules prefixes)
    (hp' : p' ∈ detectResources query mutation rules prefixes) (h : p.resource = p'.resource) :
    p = p' := by
  obtain ⟨c, hget, -, h1, h2, h3⟩ := mem_completePatterns_iff.1 hp
  obtain ⟨c', hget', -, h1', h2', h3'⟩ := mem_completePatterns_iff.1 hp'
  rw [h, hget'] at hget
  cases hget
  cases p
  cases p'
  simp_all

theorem eq_of_plural_eq (hq : (query.map Field.name).Nodup) {p p' : ResourcePattern}
    (hp : p ∈ detectResources query mutation rules prefixes)
    (hp' : p' ∈ detectResources query mutation rules prefixes) (h : p.plural = p'.plural) :
    p = p' := by
  obtain ⟨f, hf, hname, -, element, hl⟩ := (supported_of_mem_detectResources hp).listed
  obtain ⟨f', hf', hname', -, element', hl'⟩ := (supported_of_mem_detectResources hp').listed
  have hff : f = f' := List.inj_on_of_nodup_map hq hf hf' (hname.trans (h.trans hname'.symm))
  subst hff
  simp only [hl, Option.some.injEq, Prod.mk.injEq] at hl'
  exact eq_of_resource_eq hp hp' hl'.1

/-! ## Patterns of a schema -/

namespace Conversion

variable {g : TypeGraph} {options : Options} {p p' : ResourcePattern}

theorem mem_patternsOf (h : p ∈ patternsOf g options) :
    p ∈ detectResources (queryFields g) (mutationFields g) options.inflection
      options.mutationPrefixes := by
  unfold patternsOf at h
  split at h
  · exact h
  · cases h

theorem supported_of_mem_patternsOf (h : p ∈ patternsOf g options) :
    p.Supported (queryFields g) options.inflection :=
  supported_of_mem_detectResources (mem_patternsOf h)

end Conversion

/-! ## The type of a resource -/

/-- The type that a list query gives to a resource. -/
def listedType? (rules : InflectionRules) (resource : String) (f : Field) : Option String :=
  (listedResource? rules f).bind fun x => if x.1 = resource then some x.2 else none

/-- The type that a query for a single item gives to a resource. -/
def gottenType? (rules : InflectionRules) (resource : String) (f : Field) : Option String :=
  if getsById rules f = true ∧ f.name = resource then some f.type.innermost else none

/-- The type that a query gives to a resource, if it is one of the resource's queries. -/
def boundType? (rules : InflectionRules) (resource : String) (f : Field) : Option String :=
  if isReservedName f.name then none
  else (gottenType? rules resource f).or (listedType? rules resource f)

namespace Candidates

/-- The type that a candidate has so far. -/
def target? (cs : Candidates) (resource : String) : Option String :=
  (cs.get? resource).map Candidate.target

variable {cs : Candidates} {resource : String}

theorem target?_upsert {r : String} {f : Option Candidate → Candidate} {t : String}
    (hf : ∀ c, (f c).target = t) :
    target? (cs.upsert r f) resource = if r = resource then some t else target? cs resource := by
  rw [target?, SortedMap.get?_upsert]
  by_cases hr : r = resource
  · subst hr
    simp [hf]
  · rw [if_neg (Ne.symm hr), if_neg hr, target?]

theorem target?_noteList {f : Field} : target? (noteList rules f cs) resource =
    (listedType? rules resource f).or (target? cs resource) := by
  unfold noteList listedType?
  cases hl : listedResource? rules f with
  | none => rfl
  | some x =>
      obtain ⟨r, element⟩ := x
      dsimp only [Option.bind_some]
      rw [target?_upsert (t := element) fun _ => rfl]
      by_cases hr : r = resource <;> simp [hr]

theorem target?_noteGet {f : Field} : target? (noteGet rules f cs) resource =
    (gottenType? rules resource f).or (target? cs resource) := by
  unfold noteGet gottenType?
  by_cases hget : getsById rules f = true
  · rw [if_pos hget, target?_upsert (t := f.type.innermost) fun _ => rfl]
    by_cases hn : f.name = resource <;> simp [hget, hn]
  · simp [hget]

/-- One query. -/
theorem target?_noteQuery {f : Field} : target? (noteQuery rules cs f) resource =
    (boundType? rules resource f).or (target? cs resource) := by
  unfold noteQuery boundType?
  split
  · rfl
  · rw [target?_noteGet, target?_noteList, Option.or_assoc]

/-- All queries. -/
theorem target?_foldl_noteQuery : target? (query.foldl (noteQuery rules) cs) resource =
    (query.filterMap (boundType? rules resource)).getLast?.or (target? cs resource) := by
  have hstep (cs : Candidates) (f : Field) : target? (noteQuery rules cs f) resource =
      (boundType? rules resource f).or (target? cs resource) := target?_noteQuery
  exact foldl_eq_getLast?_or (fun cs => target? cs resource) hstep query cs

/-- Mutations leave all of a candidate but its operations. -/
theorem map_get?_noteMutation {β : Type} {view : Candidate → β}
    (hview : ∀ c operations, view { c with operations } = view c) {name : String}
    {start : String × CrudOperation} :
    ((noteMutation cs name start).get? resource).map view = (cs.get? resource).map view := by
  unfold noteMutation
  split
  · rw [SortedMap.get?_mapValues, Option.map_map]
    cases cs.get? resource with
    | none => rfl
    | some c =>
        simp only [Option.map_some, Function.comp_apply, Option.some.injEq]
        split
        · exact hview c _
        · rfl
  · rfl

theorem map_get?_noteMutations {β : Type} {view : Candidate → β}
    (hview : ∀ c operations, view { c with operations } = view c) {f : Field} :
    ((noteMutations prefixes cs f).get? resource).map view = (cs.get? resource).map view :=
  List.foldlRecOn prefixes.operations _
    (motive := fun cs' : Candidates => (cs'.get? resource).map view = (cs.get? resource).map view) rfl
    fun _ h _ _ => (map_get?_noteMutation hview).trans h

theorem map_get?_foldl_noteMutations {β : Type} {view : Candidate → β}
    (hview : ∀ c operations, view { c with operations } = view c) :
    ((mutation.foldl (noteMutations prefixes) cs).get? resource).map view =
      (cs.get? resource).map view :=
  List.foldlRecOn mutation _
    (motive := fun cs' : Candidates => (cs'.get? resource).map view = (cs.get? resource).map view) rfl
    fun _ h _ _ => (map_get?_noteMutations hview).trans h

theorem target?_foldl_noteQuery_empty : target? (query.foldl (noteQuery rules) .empty) resource =
    (query.filterMap (boundType? rules resource)).getLast? := by
  rw [target?_foldl_noteQuery, target?, SortedMap.get?_empty]
  exact Option.or_none

theorem target?_candidates : target? (candidates query mutation rules prefixes) resource =
    (query.filterMap (boundType? rules resource)).getLast? := by
  rw [candidates, target?, map_get?_foldl_noteMutations fun _ _ => rfl, ← target?,
    target?_foldl_noteQuery_empty]

end Candidates

/-- The type of a resource is the last one that its queries give it. -/
theorem target_of_mem_detectResources {p : ResourcePattern}
    (hp : p ∈ detectResources query mutation rules prefixes) :
    (query.filterMap (boundType? rules p.resource)).getLast? = some p.target := by
  obtain ⟨c, hget, -, -, ht, -⟩ := mem_completePatterns_iff.1 hp
  have htarget : Candidates.target? (candidates query mutation rules prefixes) p.resource =
      (query.filterMap (boundType? rules p.resource)).getLast? := Candidates.target?_candidates
  rw [← htarget, Candidates.target?, hget, ht]
  rfl

theorem innermost_of_listedName? {t : TypeRef} {n : String} (h : t.listedName? = some n) :
    t.innermost = n := by
  cases t with
  | named _ _ => cases h
  | list element _ =>
      cases element with
      | named m _ => exact Option.some.inj h
      | list _ _ => cases h

theorem innermost_of_boundType? {resource t : String} {f : Field}
    (h : boundType? rules resource f = some t) : f.type.innermost = t := by
  unfold boundType? at h
  split at h
  · cases h
  · rcases Option.or_eq_some_iff.1 h with h | ⟨-, h⟩
    · unfold gottenType? at h
      split at h <;> cases h
      rfl
    · obtain ⟨x, hx, h⟩ := Option.bind_eq_some_iff.1 h
      split at h <;> cases h
      obtain ⟨element, hlisted, hx⟩ := Option.bind_eq_some_iff.1 hx
      dsimp only at hx
      split at hx <;> cases hx
      exact innermost_of_listedName? hlisted

/-- The type of a resource is that of a query. -/
theorem exists_innermost_eq_target {p : ResourcePattern}
    (hp : p ∈ detectResources query mutation rules prefixes) :
    ∃ f ∈ query, f.type.innermost = p.target := by
  have hmem := List.mem_of_getLast? (target_of_mem_detectResources hp)
  obtain ⟨f, hf, hbound⟩ := List.mem_filterMap.1 hmem
  exact ⟨f, hf, innermost_of_boundType? hbound⟩

end GraphRest
