import GraphRest.Proofs.Conversion.Finished
import GraphRest.Proofs.Conversion.ResourceChanges
import GraphRest.Proofs.Endpoint.Emitted
import GraphRest.Proofs.Endpoint.Operations

/-!
# Identifiers of operations

The identifier of an operation is the bare name of its field or derived from the names behind it, in one
of four ways. Nothing keeps the ways apart but the words that they begin with, so endpoints at different
slots may come to the same identifier. `Coincide` says which ones do: a query and a mutation may have the
same name, and names may be spelled like what is derived from others.
-/

namespace GraphRest.Endpoint

open Sdl Text Conversion

/-! ## Ways of identifying -/

/-- What the identifier of an operation is made of. -/
inductive Identifier where
  | query (field : String)
  | mutation (field : String)
  /-- A mutation that stands behind a resource. -/
  | change (field : String)
  | list (plural : String)
  | item (resource : String)
  | member (owner field : String)
  | stream (field : String)

namespace Identifier

/-- Whether the identifier is the name of a field as it is. -/
def isBare : Identifier → Bool
  | query _ | mutation _ | change _ => true
  | _ => false

/-- The word that a derived identifier begins with. -/
def start : Identifier → String
  | list _ => "list"
  | item _ | member _ _ => "get"
  | stream _ => "subscribe"
  | _ => ""

/-- What stands behind the beginning of an identifier. -/
def rest : Identifier → String
  | query n | mutation n | change n => n
  | list p => capitalize p
  | item r => capitalize r
  | member owner n => owner ++ capitalize n
  | stream n => capitalize n

def text (i : Identifier) : String := i.start ++ i.rest

theorem text_of_isBare {i : Identifier} (h : i.isBare = true) : i.text = i.rest := by
  cases i with
  | query _ | mutation _ | change _ => exact String.empty_append
  | list _ | item _ | member _ _ | stream _ => cases h

/-- The words that derived identifiers begin with. They have different first letters. -/
def words : List String := ["list", "get", "subscribe"]

theorem start_mem_words {i : Identifier} (h : i.isBare = false) : i.start ∈ words := by
  cases i with
  | query _ | mutation _ | change _ => cases h
  | list _ | item _ | member _ _ | stream _ => simp [start, words]

theorem head?_text {i : Identifier} (h : i.isBare = false) :
    i.text.toList.head? = i.start.toList.head? := by
  have hwords : ∀ w ∈ words, w.toList ≠ [] := by decide
  rw [text, String.toList_append, List.head?_append_of_ne_nil _ (hwords _ (start_mem_words h))]

theorem start_eq_of_text_eq {i j : Identifier} (hi : i.isBare = false) (hj : j.isBare = false)
    (h : i.text = j.text) : i.start = j.start := by
  have hwords : ∀ w ∈ words, ∀ w' ∈ words, w.toList.head? = w'.toList.head? → w = w' := by decide
  refine hwords _ (start_mem_words hi) _ (start_mem_words hj) ?_
  rw [← head?_text hi, ← head?_text hj, h]

theorem rest_eq_of_text_eq {i j : Identifier} (hstart : i.start = j.start) (h : i.text = j.text) :
    i.rest = j.rest := by
  rw [text, text, hstart, String.append_right_inj] at h
  exact h

end Identifier

/-- Two operations get one identifier: a query and a mutation have one name, a mutation stands behind
resources twice, a field is spelled like what is derived for another operation, or two derivations come
to the same. -/
inductive Coincide : Identifier → Identifier → Prop where
  | queryMutation {n n'} : n = n' → Coincide (.query n) (.mutation n')
  | queryChange {n n'} : n = n' → Coincide (.query n) (.change n')
  | changes {n n'} : n = n' → Coincide (.change n) (.change n')
  | spelled {i j : Identifier} : i.isBare = true → j.isBare = false → i.rest = j.text → Coincide i j
  | lists {p p'} : capitalize p = capitalize p' → Coincide (.list p) (.list p')
  | itemMember {r owner n} : capitalize r = owner ++ capitalize n →
      Coincide (.item r) (.member owner n)
  | members {owner owner' n n'} : owner ++ capitalize n = owner' ++ capitalize n' →
      Coincide (.member owner n) (.member owner' n')
  | streams {n n'} : capitalize n = capitalize n' → Coincide (.stream n) (.stream n')

theorem Coincide.text_eq {i j : Identifier} (h : Coincide i j) : i.text = j.text := by
  cases h with
  | queryMutation h | queryChange h | changes h => exact congrArg ("" ++ ·) h
  | spelled hi _ h => rw [Identifier.text_of_isBare hi, h]
  | lists h => exact congrArg ("list" ++ ·) h
  | itemMember h => exact congrArg ("get" ++ ·) h
  | members h => exact congrArg ("get" ++ ·) h
  | streams h => exact congrArg ("subscribe" ++ ·) h

/-! ## Identifiers of endpoints -/

variable {g : TypeGraph} {options : Options} {i i' : Identifier} {e e' : Endpoint}

/-- An endpoint that is written goes by an identifier. -/
inductive GoesBy (g : TypeGraph) (options : Options) : Identifier → Endpoint → Prop where
  | query {f} : f ∈ remainingQueries (patternsOf g options) (queryFields g) →
      GoesBy g options (.query f.name) (queryEndpoint g f)
  | mutation {f} :
      f ∈ remainingMutations options.mutationPrefixes (patternsOf g options) (mutationFields g) →
      GoesBy g options (.mutation f.name) (mutationEndpoint g f)
  | change {p start kind f} : p ∈ patternsOf g options →
      (start, kind) ∈ options.mutationPrefixes.operations → p.has kind = true →
      f ∈ mutationFields g → f.name = expectedMutation start p →
      GoesBy g options (.change f.name) (changeResource g p kind f)
  | list {p} : p ∈ patternsOf g options → GoesBy g options (.list p.plural) (resourceList p)
  | item {p} : p ∈ patternsOf g options → p.has .get = true →
      GoesBy g options (.item p.resource) (resourceItem p)
  | member {d is fs f} : d ∈ g.types → isExposed g d = true → d.body = .object is fs → f ∈ fs →
      isCollection g f = true →
      GoesBy g options (.member d.name f.name) (memberEndpoint options.inflection d.name f)
  | stream {f} : f ∈ subscriptionFields g → isReservedName f.name = false →
      GoesBy g options (.stream f.name) (subscriptionEndpoint g f)

theorem Emitted.exists_goesBy {s : Stage} {pl : Place} (h : Emitted g options s pl e) :
    ∃ i, GoesBy g options i e := by
  cases h with
  | list hp => exact ⟨_, .list hp⟩
  | item hp hget => exact ⟨_, .item hp hget⟩
  | query hf => exact ⟨_, .query hf⟩
  | member hd hx hb hf hc => exact ⟨_, .member hd hx hb hf hc⟩
  | change hp hs hk hf hn => exact ⟨_, .change hp hs hk hf hn⟩
  | mutation hf => exact ⟨_, .mutation hf⟩
  | stream hf hr => exact ⟨_, .stream hf hr⟩

theorem GoesBy.operationId_eq (h : GoesBy g options i e) : e.operation.operationId = some i.text := by
  cases h with
  | query _ => exact (sameContents_annotate _ _).operationId
  | mutation _ => exact operationId_mutationOperation
  | change _ _ _ _ _ => exact operationId_changeResource
  | list _ => rfl
  | item _ _ => rfl
  | member _ _ _ _ _ => exact congrArg some String.append_assoc
  | stream _ _ => exact (sameContents_annotate _ _).operationId

/-! ## Endpoints of one identifier -/

/-- Bare names of fields are shared by a query and a mutation, or by two operations on resources that one
mutation stands behind. Two queries of one name stand at one slot, as do two other mutations. -/
theorem GoesBy.coincide_of_bare (h : GoesBy g options i e) (h' : GoesBy g options i' e')
    (hi : i.isBare = true) (hi' : i'.isBare = true) (hslot : e.slot ≠ e'.slot)
    (hrest : i.rest = i'.rest) : Coincide i i' ∨ Coincide i' i := by
  cases h with
  | query hf =>
      cases h' with
      | query hf' => exact absurd (congrArg (fun n => (nameRoute n, Method.get)) hrest) hslot
      | mutation hf' => exact Or.inl (.queryMutation hrest)
      | change _ _ _ _ _ => exact Or.inl (.queryChange hrest)
      | list _ | item _ _ | member _ _ _ _ _ | stream _ _ => cases hi'
  | mutation hf =>
      cases h' with
      | query hf' => exact Or.inr (.queryMutation hrest.symm)
      | mutation hf' => exact absurd (congrArg (fun n => (nameRoute n, Method.post)) hrest) hslot
      | change hp hs hk hf' hn =>
          have hchanges := (mem_remainingMutations_iff.1 hf).2.1
          exact absurd ⟨_, hp, _, _, hs, hk, Eq.trans hrest hn⟩ hchanges
      | list _ | item _ _ | member _ _ _ _ _ | stream _ _ => cases hi'
  | change hp hs hk hf hn =>
      cases h' with
      | query hf' => exact Or.inr (.queryChange hrest.symm)
      | mutation hf' =>
          have hchanges := (mem_remainingMutations_iff.1 hf').2.1
          exact absurd ⟨_, hp, _, _, hs, hk, Eq.trans hrest.symm hn⟩ hchanges
      | change _ _ _ _ _ => exact Or.inl (.changes hrest)
      | list _ | item _ _ | member _ _ _ _ _ | stream _ _ => cases hi'
  | list _ | item _ _ | member _ _ _ _ _ | stream _ _ => cases hi

theorem eq_of_capitalize_resource_eq (hg : g.Lawful) {p p' : ResourcePattern}
    (hp : p ∈ patternsOf g options) (hp' : p' ∈ patternsOf g options)
    (h : capitalize p.resource = capitalize p'.resource) : p = p' := by
  have hnames : ∀ f ∈ mutationFields g, isName f.name = true :=
    fun f hf => isName_of_mem_rootFields hg hf
  have hback := congrArg uncapitalize h
  rw [uncapitalize_capitalize_resource hnames (mem_patternsOf hp),
    uncapitalize_capitalize_resource hnames (mem_patternsOf hp')] at hback
  exact eq_of_resource_eq (mem_patternsOf hp) (mem_patternsOf hp') hback

theorem GoesBy.coincide_of_derived (hg : g.Lawful) (h : GoesBy g options i e)
    (h' : GoesBy g options i' e') (hi : i.isBare = false) (hslot : e.slot ≠ e'.slot)
    (hstart : i.start = i'.start) (hrest : i.rest = i'.rest) : Coincide i i' ∨ Coincide i' i := by
  cases h with
  | list hp =>
      cases h' with
      | list _ => exact Or.inl (.lists hrest)
      | _ => simp [Identifier.start] at hstart
  | item hp _ =>
      cases h' with
      | item hp' _ =>
          -- The names of resources come back from upper case, those of other fields need not.
          obtain rfl := eq_of_capitalize_resource_eq hg hp hp' hrest
          exact absurd rfl hslot
      | member _ _ _ _ _ => exact Or.inl (.itemMember hrest)
      | _ => simp [Identifier.start] at hstart
  | member _ _ _ _ _ =>
      cases h' with
      | item _ _ => exact Or.inr (.itemMember hrest.symm)
      | member _ _ _ _ _ => exact Or.inl (.members hrest)
      | _ => simp [Identifier.start] at hstart
  | stream _ _ =>
      cases h' with
      | stream _ _ => exact Or.inl (.streams hrest)
      | _ => simp [Identifier.start] at hstart
  | query _ | mutation _ | change _ _ _ _ _ => cases hi

/-- Two endpoints at different slots have the same identifier just if the two identifiers coincide. -/
theorem GoesBy.operationId_eq_iff (hg : g.Lawful) (h : GoesBy g options i e)
    (h' : GoesBy g options i' e') (hslot : e.slot ≠ e'.slot) :
    e.operation.operationId = e'.operation.operationId ↔ Coincide i i' ∨ Coincide i' i := by
  rw [h.operationId_eq, h'.operationId_eq, Option.some.injEq]
  constructor
  · intro htext
    cases hi : i.isBare with
    | true =>
        cases hi' : i'.isBare with
        | true =>
            rw [Identifier.text_of_isBare hi, Identifier.text_of_isBare hi'] at htext
            exact h.coincide_of_bare h' hi hi' hslot htext
        | false =>
            rw [Identifier.text_of_isBare hi] at htext
            exact Or.inl (.spelled hi hi' htext)
    | false =>
        cases hi' : i'.isBare with
        | true =>
            rw [Identifier.text_of_isBare hi'] at htext
            exact Or.inr (.spelled hi' hi htext.symm)
        | false =>
            have hstart := Identifier.start_eq_of_text_eq hi hi' htext
            exact h.coincide_of_derived hg h' hi hslot hstart
              (Identifier.rest_eq_of_text_eq hstart htext)
  · rintro (hcoincide | hcoincide)
    · exact hcoincide.text_eq
    · exact hcoincide.text_eq.symm

end GraphRest.Endpoint

namespace GraphRest.Conversion

open Sdl Endpoint

/-! ## The finished document -/

/-- The operation at a path and a method goes by an identifier. -/
def IdentifiedBy (g : TypeGraph) (options : Options) (path : String) (method : Method)
    (o : Operation) (i : Identifier) : Prop :=
  ∃ e, GoesBy g options i e ∧ options.path e.route = path ∧ e.method = method ∧ e.operation = o

/-- Each operation of a document is identified, in one of seven ways, and two operations at different
slots have the same identifier just if the ways in which they are identified coincide. -/
theorem operationIds_shared_iff {options : Options} {source : String} {g : TypeGraph} {c : Conversion}
    (hg : TypeGraph.ofSource? source.toList = some g) (hc : convert? options source = some c) :
    (∀ path method o, (path, method, o) ∈ c.document.operations →
      ∃ i, IdentifiedBy g options path method o i) ∧
    (∀ path method o i, IdentifiedBy g options path method o i → o.operationId = some i.text) ∧
    ∀ path method o i path' method' o' i', IdentifiedBy g options path method o i →
      IdentifiedBy g options path' method' o' i' → (path, method) ≠ (path', method') →
        (o.operationId = o'.operationId ↔ Coincide i i' ∨ Coincide i' i) := by
  have hlawful := TypeGraph.lawful_of_ofSource? hg
  refine ⟨?_, ?_, ?_⟩
  · intro path method o ho
    obtain ⟨e, he, -, hpath, hmethod, hop⟩ := (mem_operations_document hg hc).1 ho
    obtain ⟨s, pl, hemitted⟩ := (mem_written_iff hlawful).1 he
    obtain ⟨i, hi⟩ := hemitted.exists_goesBy
    exact ⟨i, e, hi, hpath, hmethod, hop⟩
  · rintro path method o i ⟨e, hi, -, -, rfl⟩
    exact hi.operationId_eq
  · rintro path method o i path' method' o' i' ⟨e, hi, rfl, rfl, rfl⟩ ⟨e', hi', rfl, rfl, rfl⟩ hne
    have hslot : e.slot ≠ e'.slot := by
      intro hslot
      obtain ⟨hroute, hmethod⟩ := Prod.mk.inj hslot
      exact hne (by rw [hroute, hmethod])
    exact hi.operationId_eq_iff hlawful hi' hslot

/-- A query and a mutation of one name. -/
def pings : String := "type Query \x7b ping: Int \x7d type Mutation \x7b ping: Int \x7d"

theorem exists_pings : ∃ g, TypeGraph.ofSource? pings.toList = some g ∧
    ∃ o o', ("/ping", .get, o) ∈ (ofGraph {} pings g).document.operations ∧
      ("/ping", .post, o') ∈ (ofGraph {} pings g).document.operations ∧
      o.operationId = some "ping" ∧ o'.operationId = some "ping" := by
  obtain ⟨g, hg, ⟨⟨_, _, o⟩, ho, rfl, rfl, hid⟩, ⟨_, _, o'⟩, ho', rfl, rfl, hid'⟩ :=
    exists_graph pings (fun g =>
      (∃ x ∈ (ofGraph {} pings g).document.operations,
        x.1 = "/ping" ∧ x.2.1 = .get ∧ x.2.2.operationId = some "ping") ∧
      ∃ x ∈ (ofGraph {} pings g).document.operations,
        x.1 = "/ping" ∧ x.2.1 = .post ∧ x.2.2.operationId = some "ping") (by decide +kernel)
  exact ⟨g, hg, o, o', ho, ho', hid, hid'⟩

theorem pings_identifiers_shared : ∃ c, convert? {} pings = some c ∧
    ∃ o o', ("/ping", .get, o) ∈ c.document.operations ∧
      ("/ping", .post, o') ∈ c.document.operations ∧
      o.operationId = some "ping" ∧ o'.operationId = some "ping" := by
  obtain ⟨g, hg, hshared⟩ := exists_pings
  exact ⟨_, convert?_of_ofSource? {} hg, hshared⟩

theorem pings_identifiers_coincide : ∃ g c, TypeGraph.ofSource? pings.toList = some g ∧
    convert? {} pings = some c ∧ ∃ o o', ("/ping", .get, o) ∈ c.document.operations ∧
      ("/ping", .post, o') ∈ c.document.operations ∧
      ∃ i i', IdentifiedBy g {} "/ping" .get o i ∧ IdentifiedBy g {} "/ping" .post o' i' ∧
        (Coincide i i' ∨ Coincide i' i) := by
  obtain ⟨g, hg, o, o', ho, ho', hid, hid'⟩ := exists_pings
  have hc := convert?_of_ofSource? {} hg
  obtain ⟨hidentified, -, hshared⟩ := operationIds_shared_iff hg hc
  obtain ⟨i, hi⟩ := hidentified _ _ _ ho
  obtain ⟨i', hi'⟩ := hidentified _ _ _ ho'
  have hcoincide := (hshared _ _ _ _ _ _ _ _ hi hi' (by decide)).1 (hid.trans hid'.symm)
  exact ⟨g, _, hg, hc, o, o', ho, ho', i, i', hi, hi', hcoincide⟩

end GraphRest.Conversion
