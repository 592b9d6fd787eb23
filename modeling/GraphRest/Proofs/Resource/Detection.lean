import GraphRest.Proofs.Data.Last
import GraphRest.Proofs.Resource.Patterns
import GraphRest.Proofs.Text.Basic

/-!
# Which resources are detected

A resource is detected for every name that is the singular of a list query and stands behind the prefix
of a creating mutation. What a candidate holds is followed through the scan: one query, all queries, one
mutation, all mutations.
-/

namespace GraphRest

open Sdl

variable {query mutation : List Field} {rules : InflectionRules} {prefixes : MutationPrefixes}
  {resource : String} {f : Field}

/-! ## The fields of a resource -/

/-- A query field lists a resource: it has a list of one level of a named type, and its name has the
resource for a singular of another spelling. -/
structure Lists (rules : InflectionRules) (resource : String) (f : Field) : Prop where
  unreserved : isReservedName f.name = false
  oneLevel : ∃ element nonNull nonNull', f.type = .list (.named element nonNull) nonNull'
  singular : rules.singularize f.name = resource
  differs : resource ≠ f.name

/-- A query field gets a resource: it goes by its name, takes an `id` and nothing else, and the resource
is the singular of its innermost type or that type in another case. -/
structure Gets (rules : InflectionRules) (resource : String) (f : Field) : Prop where
  unreserved : isReservedName f.name = false
  named : f.name = resource
  onlyId : f.arguments.map InputValue.name = ["id"]
  ofType : resource = rules.singularize f.type.innermost ∨
    Text.lowerAscii resource = Text.lowerAscii f.type.innermost

/-- A mutation field changes a resource: its name is a prefix that is not empty and a rest, and the rest
with its first letter in lower case is the resource. -/
structure Changes (start resource : String) (f : Field) : Prop where
  nonempty : start ≠ ""
  named : ∃ rest, f.name = start ++ rest ∧ Text.uncapitalize rest = resource

theorem listedName?_eq_some_iff {t : TypeRef} {n : String} :
    t.listedName? = some n ↔ ∃ nonNull nonNull', t = .list (.named n nonNull) nonNull' := by
  cases t with
  | named _ _ => simp [TypeRef.listedName?]
  | list element _ => cases element <;> simp [TypeRef.listedName?]

theorem listedResource?_eq_some_iff {element : String} :
    listedResource? rules f = some (resource, element) ↔
      f.type.listedName? = some element ∧ rules.singularize f.name = resource ∧ resource ≠ f.name := by
  rw [listedResource?, Option.bind_eq_some_iff]
  constructor
  · rintro ⟨_, hlisted, h⟩
    dsimp only at h
    split at h
    · cases h
    · rename_i hne
      cases h
      exact ⟨hlisted, rfl, hne⟩
  · rintro ⟨hlisted, rfl, hne⟩
    exact ⟨element, hlisted, by rw [if_neg hne]⟩

theorem lists_iff : Lists rules resource f ↔
    isReservedName f.name = false ∧ ∃ element, listedResource? rules f = some (resource, element) := by
  simp only [listedResource?_eq_some_iff, listedName?_eq_some_iff]
  constructor
  · rintro ⟨hr, ⟨element, b, b', ht⟩, hs, hne⟩
    exact ⟨hr, element, ⟨b, b', ht⟩, hs, hne⟩
  · rintro ⟨hr, element, ⟨b, b', ht⟩, hs, hne⟩
    exact ⟨hr, ⟨element, b, b', ht⟩, hs, hne⟩

theorem gets_iff : Gets rules resource f ↔
    isReservedName f.name = false ∧ getsById rules f = true ∧ f.name = resource := by
  simp only [getsById, takesOnlyId, Bool.and_eq_true, Bool.or_eq_true, decide_eq_true_eq]
  constructor
  · rintro ⟨hr, rfl, hid, ht⟩
    exact ⟨hr, ⟨hid, ht⟩, rfl⟩
  · rintro ⟨hr, ⟨hid, ht⟩, rfl⟩
    exact ⟨hr, rfl, hid, ht⟩

theorem mutatedResource?_eq_some_iff {start : String} :
    mutatedResource? start f.name = some resource ↔ Changes start resource f := by
  unfold mutatedResource?
  by_cases hempty : start = ""
  · rw [if_pos (by simp [hempty])]
    constructor
    · intro h
      cases h
    · exact fun h => absurd hempty h.nonempty
  · rw [if_neg (by simpa using hempty), Option.map_eq_some_iff]
    simp only [Text.after?_eq_some_iff]
    constructor
    · exact fun h => ⟨hempty, h⟩
    · exact fun h => h.named

/-- A query field stands for an operation on a resource. -/
def Reads (rules : InflectionRules) (resource : String) (f : Field) : CrudOperation → Prop
  | .list => Lists rules resource f
  | .get => Gets rules resource f
  | _ => False

/-- A mutation field stands for an operation on a resource. -/
def Writes (prefixes : MutationPrefixes) (resource : String) (f : Field) : CrudOperation → Prop
  | .create => Changes prefixes.create resource f
  | .update => Changes prefixes.update resource f
  | .delete => Changes prefixes.delete resource f
  | _ => False

theorem writes_iff {op : CrudOperation} : Writes prefixes resource f op ↔
    ∃ start, (start, op) ∈ prefixes.operations ∧ Changes start resource f := by
  cases op <;> simp [Writes, MutationPrefixes.operations]

theorem isSome_boundType? :
    (boundType? rules resource f).isSome ↔ Lists rules resource f ∨ Gets rules resource f := by
  rw [lists_iff, gets_iff, boundType?, listedType?, gottenType?]
  cases hr : isReservedName f.name with
  | true => simp
  | false =>
      cases hl : listedResource? rules f with
      | none => by_cases hg : getsById rules f = true ∧ f.name = resource <;> simp [hg]
      | some x =>
          obtain ⟨r, element⟩ := x
          by_cases hg : getsById rules f = true ∧ f.name = resource <;>
            by_cases hrr : r = resource <;> simp [hg, hrr]

/-! ## Operations of candidates -/

namespace Candidates

variable {cs : Candidates} {op : CrudOperation}

/-- Whether a candidate has an operation so far. -/
def has (cs : Candidates) (resource : String) (op : CrudOperation) : Bool :=
  (cs.get? resource).any (·.operations.has op)

theorem has_eq_true_iff : cs.has resource op = true ↔
    ∃ c, cs.get? resource = some c ∧ c.operations.has op = true :=
  Option.any_eq_true _ _

/-- Noting a query adds one operation to one candidate. -/
theorem has_upsert {r : String} {f : Option Candidate → Candidate} {o : CrudOperation}
    (hf : ∀ c, (f c).operations = ((c.map Candidate.operations).getD {}).insert o) :
    has (cs.upsert r f) resource op = true ↔
      (op = o ∧ r = resource) ∨ cs.has resource op = true := by
  rw [has, SortedMap.get?_upsert]
  by_cases hr : resource = r
  · subst hr
    rw [if_pos rfl, Option.any_some, hf, CrudSet.has_insert, has]
    cases cs.get? resource with
    | none => cases op <;> simp [CrudSet.has]
    | some c => simp
  · rw [if_neg hr, has]
    simp [Ne.symm hr]

theorem has_noteList : has (noteList rules f cs) resource op = true ↔
    (op = .list ∧ ∃ element, listedResource? rules f = some (resource, element)) ∨
      cs.has resource op = true := by
  unfold noteList
  cases hl : listedResource? rules f with
  | none => simp
  | some x =>
      obtain ⟨r, element⟩ := x
      dsimp only
      rw [has_upsert (o := .list) fun _ => rfl]
      simp

theorem has_noteGet : has (noteGet rules f cs) resource op = true ↔
    (op = .get ∧ getsById rules f = true ∧ f.name = resource) ∨ cs.has resource op = true := by
  unfold noteGet
  by_cases hg : getsById rules f = true
  · rw [if_pos hg, has_upsert (o := .get) fun _ => rfl]
    simp [hg]
  · simp [hg]

/-- A query adds the operations that it stands for. -/
theorem has_noteQuery : has (noteQuery rules cs f) resource op = true ↔
    Reads rules resource f op ∨ cs.has resource op = true := by
  unfold noteQuery
  cases hr : isReservedName f.name with
  | true => cases op <;> simp [Reads, lists_iff, gets_iff, hr]
  | false =>
      rw [if_neg Bool.false_ne_true, has_noteGet, has_noteList]
      cases op <;> simp [Reads, lists_iff, gets_iff, hr]

theorem has_foldl_noteQuery : has (query.foldl (noteQuery rules) cs) resource op = true ↔
    (∃ f ∈ query, Reads rules resource f op) ∨ cs.has resource op = true := by
  induction query generalizing cs with
  | nil => simp
  | cons f query ih =>
      rw [List.foldl_cons, ih, has_noteQuery, List.exists_mem_cons_iff, or_left_comm, or_assoc]

/-- A mutation adds an operation to a candidate that is there. -/
theorem has_noteMutation {start : String} {kind : CrudOperation} :
    has (noteMutation cs f.name (start, kind)) resource op = true ↔
      ((cs.get? resource).isSome ∧ op = kind ∧ Changes start resource f) ∨
        cs.has resource op = true := by
  rw [← mutatedResource?_eq_some_iff]
  unfold noteMutation
  cases hm : mutatedResource? start f.name with
  | none => simp
  | some r =>
      dsimp only
      rw [has, SortedMap.get?_mapValues, has]
      cases cs.get? resource with
      | none => simp
      | some c =>
          by_cases hr : resource = r
          · simp [hr, CrudSet.has_insert]
          · simp [hr, Ne.symm hr]

theorem isSome_noteMutation {name : String} {start : String × CrudOperation} :
    ((noteMutation cs name start).get? resource).isSome = (cs.get? resource).isSome := by
  rw [← Option.isSome_map (f := Candidate.plural), map_get?_noteMutation fun _ _ => rfl,
    Option.isSome_map]

theorem has_foldl_noteMutation {starts : List (String × CrudOperation)} :
    has (starts.foldl (fun cs start => noteMutation cs f.name start) cs) resource op = true ↔
      ((cs.get? resource).isSome ∧ ∃ start, (start, op) ∈ starts ∧ Changes start resource f) ∨
        cs.has resource op = true := by
  induction starts generalizing cs with
  | nil => simp
  | cons x starts ih =>
      obtain ⟨start, kind⟩ := x
      have hcons : (∃ start', (start', op) ∈ (start, kind) :: starts ∧ Changes start' resource f) ↔
          (op = kind ∧ Changes start resource f) ∨
            ∃ start', (start', op) ∈ starts ∧ Changes start' resource f := by
        simp [or_and_right, exists_or, and_assoc]
      rw [List.foldl_cons, ih, has_noteMutation, isSome_noteMutation, hcons, and_or_left,
        or_left_comm, or_assoc]

theorem isSome_noteMutations :
    ((noteMutations prefixes cs f).get? resource).isSome = (cs.get? resource).isSome := by
  rw [← Option.isSome_map (f := Candidate.plural), map_get?_noteMutations fun _ _ => rfl,
    Option.isSome_map]

theorem has_noteMutations : has (noteMutations prefixes cs f) resource op = true ↔
    ((cs.get? resource).isSome ∧ Writes prefixes resource f op) ∨ cs.has resource op = true := by
  rw [noteMutations, has_foldl_noteMutation, writes_iff]

theorem has_foldl_noteMutations :
    has (mutation.foldl (noteMutations prefixes) cs) resource op = true ↔
      ((cs.get? resource).isSome ∧ ∃ f ∈ mutation, Writes prefixes resource f op) ∨
        cs.has resource op = true := by
  induction mutation generalizing cs with
  | nil => simp
  | cons f mutation ih =>
      rw [List.foldl_cons, ih, isSome_noteMutations, has_noteMutations, List.exists_mem_cons_iff,
        and_or_left, or_left_comm, or_assoc]

theorem isSome_foldl_noteQuery :
    ((query.foldl (noteQuery rules) .empty).get? resource).isSome ↔
      ∃ f ∈ query, Lists rules resource f ∨ Gets rules resource f := by
  rw [← Option.isSome_map (f := Candidate.target), ← target?, target?_foldl_noteQuery_empty,
    List.getLast?_isSome, Ne, List.filterMap_eq_nil_iff]
  simp [← isSome_boundType?, Option.isSome_iff_ne_none]

theorem has_candidates :
    has (candidates query mutation rules prefixes) resource op = true ↔
      ((∃ f ∈ query, Lists rules resource f ∨ Gets rules resource f) ∧
        ∃ f ∈ mutation, Writes prefixes resource f op) ∨ ∃ f ∈ query, Reads rules resource f op := by
  have hempty : has .empty resource op = false := rfl
  rw [candidates, has_foldl_noteMutations, isSome_foldl_noteQuery, has_foldl_noteQuery, hempty]
  simp

/-! ## Plurals of candidates -/

/-- The plural that a candidate has so far. -/
def plural? (cs : Candidates) (resource : String) : Option String :=
  (cs.get? resource).map Candidate.plural

variable {n : String}

theorem plural?_noteGet (hn : plural? cs resource = some n) :
    plural? (noteGet rules f cs) resource = some n := by
  unfold noteGet
  split
  · rw [plural?, SortedMap.get?_upsert]
    by_cases hr : resource = f.name
    · subst hr
      rw [if_pos rfl, Option.map_some, ← plural?, hn]
      rfl
    · rwa [if_neg hr]
  · exact hn

theorem plural?_noteList_of_listed {element : String}
    (h : listedResource? rules f = some (resource, element)) :
    plural? (noteList rules f cs) resource = some f.name := by
  unfold noteList
  rw [h, plural?, SortedMap.get?_upsert, if_pos rfl]
  rfl

theorem plural?_noteList_of_not_listed
    (h : ∀ element, listedResource? rules f ≠ some (resource, element)) :
    plural? (noteList rules f cs) resource = plural? cs resource := by
  unfold noteList
  split
  · rename_i r element hl
    have hr : resource ≠ r := fun hr => h element (hr ▸ hl)
    rw [plural?, SortedMap.get?_upsert, if_neg hr, plural?]
  · rfl

theorem plural?_noteQuery_of_lists (h : Lists rules resource f) :
    plural? (noteQuery rules cs f) resource = some f.name := by
  obtain ⟨hr, element, hl⟩ := lists_iff.1 h
  rw [noteQuery, if_neg (by simp [hr])]
  exact plural?_noteGet (plural?_noteList_of_listed hl)

theorem plural?_noteQuery_of_not_lists (h : ¬ Lists rules resource f)
    (hn : plural? cs resource = some n) : plural? (noteQuery rules cs f) resource = some n := by
  unfold noteQuery
  split
  · exact hn
  · rename_i hr
    have hlisted : ∀ element, listedResource? rules f ≠ some (resource, element) :=
      fun element hl => h (lists_iff.2 ⟨by simpa using hr, element, hl⟩)
    exact plural?_noteGet ((plural?_noteList_of_not_listed hlisted).trans hn)

/-- Of all queries that list a resource the last one names it. -/
theorem plural?_foldl_noteQuery (h : IsLast (Lists rules resource) query f) :
    plural? (query.foldl (noteQuery rules) cs) resource = some f.name := by
  obtain ⟨pre, post, rfl, hf, hpost⟩ := h
  rw [List.foldl_append, List.foldl_cons]
  exact List.foldlRecOn post _ (motive := fun cs => plural? cs resource = some f.name)
    (plural?_noteQuery_of_lists hf)
    fun cs hcs x hx => plural?_noteQuery_of_not_lists (hpost x hx) hcs

theorem plural?_candidates (h : IsLast (Lists rules resource) query f) :
    plural? (candidates query mutation rules prefixes) resource = some f.name := by
  rw [candidates, plural?, map_get?_foldl_noteMutations fun _ _ => rfl, ← plural?,
    plural?_foldl_noteQuery h]

end Candidates

/-! ## Detected resources -/

/-- The root fields of a schema make up a resource. -/
structure IsResource (query mutation : List Field) (rules : InflectionRules)
    (prefixes : MutationPrefixes) (resource : String) : Prop where
  listed : ∃ f ∈ query, Lists rules resource f
  created : ∃ f ∈ mutation, Changes prefixes.create resource f

/-- A pattern says of its resource what the root fields say: the last query that lists it gives the
plural, the last query that lists or gets it gives the type, and each operation has its field. -/
structure ResourcePattern.Describes (query mutation : List Field) (rules : InflectionRules)
    (prefixes : MutationPrefixes) (p : ResourcePattern) : Prop where
  plural : ∃ f, IsLast (Lists rules p.resource) query f ∧ p.plural = f.name
  target : ∃ f, IsLast (fun f => Lists rules p.resource f ∨ Gets rules p.resource f) query f ∧
    p.target = f.type.innermost
  list : p.has .list = true
  create : p.has .create = true
  get : p.has .get = true ↔ ∃ f ∈ query, Gets rules p.resource f
  update : p.has .update = true ↔ ∃ f ∈ mutation, Changes prefixes.update p.resource f
  delete : p.has .delete = true ↔ ∃ f ∈ mutation, Changes prefixes.delete p.resource f

variable {p : ResourcePattern}

theorem pairwise_detectResources : (detectResources query mutation rules prefixes).Pairwise
    fun p p' => Text.bytes p.resource < Text.bytes p'.resource := by
  rw [detectResources, completePatterns, List.pairwise_map]
  refine (List.Pairwise.filter _ (candidates query mutation rules prefixes).sorted).imp ?_
  exact fun h => Text.bytes_lt_iff.2 h

theorem has_of_mem_detectResources {op : CrudOperation}
    (hp : p ∈ detectResources query mutation rules prefixes) : p.has op = true ↔
      (candidates query mutation rules prefixes).has p.resource op = true := by
  obtain ⟨c, hget, -, -, -, ho⟩ := mem_completePatterns_iff.1 hp
  rw [Candidates.has, hget, ResourcePattern.has, ho, Option.any_some]

theorem isResource_of_mem_detectResources (hp : p ∈ detectResources query mutation rules prefixes) :
    IsResource query mutation rules prefixes p.resource := by
  have hsupported := supported_of_mem_detectResources hp
  have hlist := (has_of_mem_detectResources hp).1 hsupported.list
  have hcreate := (has_of_mem_detectResources hp).1 hsupported.create
  rw [Candidates.has_candidates] at hlist hcreate
  constructor
  · simpa [Reads, Writes] using hlist
  · simpa [Reads, Writes] using (hcreate.resolve_right (by simp [Reads])).2

theorem exists_mem_detectResources (h : IsResource query mutation rules prefixes resource) :
    ∃ p ∈ detectResources query mutation rules prefixes, p.resource = resource := by
  obtain ⟨⟨f, hf, hlists⟩, m, hm, hchanges⟩ := h
  have hlist : (candidates query mutation rules prefixes).has resource .list = true :=
    Candidates.has_candidates.2 (Or.inr ⟨f, hf, hlists⟩)
  have hcreate : (candidates query mutation rules prefixes).has resource .create = true :=
    Candidates.has_candidates.2 (Or.inl ⟨⟨f, hf, Or.inl hlists⟩, m, hm, hchanges⟩)
  obtain ⟨c, hget, hlist⟩ := Candidates.has_eq_true_iff.1 hlist
  rw [Candidates.has, hget, Option.any_some] at hcreate
  refine ⟨⟨resource, c.plural, c.target, c.operations⟩, mem_completePatterns_iff.2 ?_, rfl⟩
  exact ⟨c, hget, Bool.and_eq_true_iff.2 ⟨hlist, hcreate⟩, rfl, rfl, rfl⟩

theorem describes_of_mem_detectResources (hp : p ∈ detectResources query mutation rules prefixes) :
    p.Describes query mutation rules prefixes := by
  obtain ⟨⟨f, hf, hlists⟩, m, hm, hchanges⟩ := isResource_of_mem_detectResources hp
  have hfound : ∃ f ∈ query, Lists rules p.resource f ∨ Gets rules p.resource f :=
    ⟨f, hf, Or.inl hlists⟩
  have hhas : ∀ op, p.has op = true ↔ (∃ f ∈ mutation, Writes prefixes p.resource f op) ∨
      ∃ f ∈ query, Reads rules p.resource f op := by
    intro op
    rw [has_of_mem_detectResources hp, Candidates.has_candidates]
    simp only [hfound, true_and]
  constructor
  · obtain ⟨l, hl⟩ := exists_isLast hf hlists
    obtain ⟨c, hget, -, hplural, -, -⟩ := mem_completePatterns_iff.1 hp
    have hnamed : (candidates query mutation rules prefixes).plural? p.resource = some l.name :=
      Candidates.plural?_candidates hl
    rw [Candidates.plural?, hget, Option.map_some, ← hplural] at hnamed
    exact ⟨l, hl, Option.some.inj hnamed⟩
  · obtain ⟨l, hl, ht⟩ := exists_isLast_of_getLast? (target_of_mem_detectResources hp)
    exact ⟨l, hl.congr fun _ => isSome_boundType?, (innermost_of_boundType? ht).symm⟩
  · exact (hhas .list).2 (Or.inr ⟨f, hf, hlists⟩)
  · exact (hhas .create).2 (Or.inl ⟨m, hm, hchanges⟩)
  · simpa [Reads, Writes] using hhas .get
  · simpa [Reads, Writes] using hhas .update
  · simpa [Reads, Writes] using hhas .delete

/-- Detection answers one pattern for each resource that the root fields make up, in byte order of
their names, and each says of its resource what the fields say. -/
theorem detectResources_describe (query mutation : List Field) (rules : InflectionRules)
    (prefixes : MutationPrefixes) :
    (detectResources query mutation rules prefixes).Pairwise
        (fun p p' => Text.bytes p.resource < Text.bytes p'.resource) ∧
      (∀ resource, IsResource query mutation rules prefixes resource →
        ∃! p, p ∈ detectResources query mutation rules prefixes ∧ p.resource = resource) ∧
      ∀ p ∈ detectResources query mutation rules prefixes,
        IsResource query mutation rules prefixes p.resource ∧
          p.Describes query mutation rules prefixes := by
  refine ⟨pairwise_detectResources, ?_, ?_⟩
  · intro resource h
    obtain ⟨p, hp, rfl⟩ := exists_mem_detectResources h
    exact ⟨p, ⟨hp, rfl⟩, fun p' hp' => eq_of_resource_eq hp'.1 hp hp'.2⟩
  · exact fun p hp => ⟨isResource_of_mem_detectResources hp, describes_of_mem_detectResources hp⟩

end GraphRest
