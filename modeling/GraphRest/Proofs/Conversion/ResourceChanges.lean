import GraphRest.Endpoint.Mutation
import GraphRest.Proofs.Conversion.Finished
import GraphRest.Proofs.Endpoint.Collision
import GraphRest.Proofs.Resource.Detection
import GraphRest.Proofs.Sdl.Names
import GraphRest.Proofs.Text.Case

/-!
# Endpoints of the mutations on resources

Detection says of a resource that it has an operation, and the endpoint of the operation is written if
the schema has the mutation that the resource expects. The two agree except for mutations whose names go
on in lower case behind the prefix: those are detected, and no endpoint is written for them.
-/

namespace GraphRest

open Sdl Text

/-! ## Names of mutations on resources

Detection goes from the name of a mutation to a resource: it drops the prefix and puts the rest in lower
case at its first letter. An endpoint is looked up the other way: the resource in upper case behind the
prefix. A mutation is lost on the way just when its name goes on in lower case behind the prefix. -/

section

variable {query mutation : List Field} {rules : InflectionRules} {prefixes : MutationPrefixes}
  {start resource : String} {f : Field}

theorem ascii_of_isName_append {rest : String} (h : isName (start ++ rest) = true) : Ascii rest := by
  intro c hc
  refine isNameChar_lt (isNameChar_of_mem h ?_)
  rw [String.toList_append]
  exact List.mem_append_right _ hc

/-- Of a mutation that changes a resource the name is the one that is looked up, or the resource stands
in it as it is. -/
theorem Changes.name_eq_or (h : Changes start resource f) (hf : isName f.name = true) :
    f.name = start ++ capitalize resource ∨
      (f.name = start ++ resource ∧ beginsLower resource = true) := by
  obtain ⟨rest, hname, rfl⟩ := h.named
  have hascii : Ascii rest := ascii_of_isName_append (hname ▸ hf)
  -- A rest in upper case comes back from lower case, one in lower case is the resource already.
  cases hlower : beginsLower rest with
  | false =>
      left
      rw [hname, capitalize_uncapitalize hascii, capitalize_of_not_beginsLower hascii hlower]
  | true =>
      right
      rw [uncapitalize_of_beginsLower hascii hlower]
      exact ⟨hname, hlower⟩

/-- The name of a detected resource comes back from upper case. -/
theorem uncapitalize_capitalize_resource (hm : ∀ f ∈ mutation, isName f.name = true)
    {p : ResourcePattern} (hp : p ∈ detectResources query mutation rules prefixes) :
    uncapitalize (capitalize p.resource) = p.resource := by
  obtain ⟨f, hf, hchanges⟩ := (isResource_of_mem_detectResources hp).created
  obtain ⟨rest, hname, hrest⟩ := hchanges.named
  have hascii : Ascii rest := ascii_of_isName_append (hname ▸ hm f hf)
  rw [← hrest, capitalize_uncapitalize hascii, uncapitalize_capitalize hascii]

/-- A detected resource has the operations that change it just when a mutation is there for them. -/
theorem has_iff_exists_changes {p : ResourcePattern} {kind : CrudOperation}
    (hp : p ∈ detectResources query mutation rules prefixes)
    (hs : (start, kind) ∈ prefixes.operations) :
    p.has kind = true ↔ ∃ f ∈ mutation, Changes start p.resource f := by
  have hdescribes := describes_of_mem_detectResources hp
  rcases MutationPrefixes.mem_operations_iff.1 hs with ⟨rfl, rfl⟩ | ⟨rfl, rfl⟩ | ⟨rfl, rfl⟩
  · exact iff_of_true hdescribes.create (isResource_of_mem_detectResources hp).created
  · exact hdescribes.update
  · exact hdescribes.delete

theorem changes_of_name_eq (hm : ∀ f ∈ mutation, isName f.name = true) {p : ResourcePattern}
    (hp : p ∈ detectResources query mutation rules prefixes) (hstart : start ≠ "")
    (hf : f.name = Endpoint.expectedMutation start p) : Changes start p.resource f :=
  ⟨hstart, _, hf, uncapitalize_capitalize_resource hm hp⟩

end

/-! ## Endpoints -/

open Conversion

namespace Conversion

/-- The resources of a schema, whether or not a conversion asks for them. -/
def resourcesOf (g : TypeGraph) (options : Options) : List ResourcePattern :=
  detectResources (queryFields g) (mutationFields g) options.inflection options.mutationPrefixes

end Conversion

namespace Endpoint

variable {g : TypeGraph} {options : Options} {p p' : ResourcePattern} {start start' : String}
  {kind kind' : CrudOperation}

/-- The endpoints of the mutations on the resources of a schema, as a conversion that detects these writes
them. -/
def resourceChanges (g : TypeGraph) (options : Options) : List Endpoint :=
  changeResources g options.mutationPrefixes (resourcesOf g options) (mutationFields g)

/-- The place of a mutation on a resource tells which one it is, and on which resource. -/
theorem eq_of_slot_changePlace_eq (hg : g.Lawful) (hp : p ∈ resourcesOf g options)
    (hp' : p' ∈ resourcesOf g options) (hs : (start, kind) ∈ options.mutationPrefixes.operations)
    (hs' : (start', kind') ∈ options.mutationPrefixes.operations)
    (h : (changePlace p kind).slot = (changePlace p' kind').slot) :
    p = p' ∧ kind = kind' ∧ start = start' := by
  have hlegal : ∀ q ∈ resourcesOf g options, ∀ k, (changePlace q k).Legal := fun q hq k =>
    Place.legal_of_names (isName_of_mem_changePlace (isName_plural hg hq))
  obtain ⟨hplural, hkind⟩ :=
    changePlace_inj hs hs' (Place.slot_inj (hlegal p hp kind) (hlegal p' hp' kind') h)
  exact ⟨eq_of_plural_eq (hg.rootFields g.roots.query).1 hp hp' hplural, hkind⟩

theorem exists_resourceChange_at_iff (hg : g.Lawful) (hp : p ∈ resourcesOf g options)
    (hs : (start, kind) ∈ options.mutationPrefixes.operations) :
    (∃ e ∈ resourceChanges g options, e.slot = (changePlace p kind).slot) ↔
      p.has kind = true ∧ ∃ f ∈ mutationFields g, f.name = expectedMutation start p := by
  constructor
  · rintro ⟨e, he, hslot⟩
    obtain ⟨p', hp', start', kind', hs', hhas, f, hf, hname, rfl⟩ := (mem_changeResources_iff hg).1 he
    rw [slot_changeResource] at hslot
    obtain ⟨rfl, rfl, rfl⟩ := eq_of_slot_changePlace_eq hg hp' hp hs' hs hslot
    exact ⟨hhas, f, hf, hname⟩
  · rintro ⟨hhas, f, hf, hname⟩
    refine ⟨changeResource g p kind f, ?_, slot_changeResource⟩
    exact (mem_changeResources_iff hg).2 ⟨p, hp, start, kind, hs, hhas, f, hf, hname, rfl⟩

end Endpoint

namespace Conversion

open Endpoint

/-- Which mutations on resources get their endpoints. One does just when the schema has a field by the
name that the resource expects, and then the resource has the operation. If it has the operation without
such a field, it has it from a field with the resource in lower case, and there is no endpoint. -/
theorem changes_emitted_iff_expected {source : String} {g : TypeGraph} {options : Options}
    {p : ResourcePattern} {start : String} {kind : CrudOperation}
    (hg : TypeGraph.ofSource? source.toList = some g) (hp : p ∈ resourcesOf g options)
    (hs : (start, kind) ∈ options.mutationPrefixes.operations) (hstart : start ≠ "") :
    ((∃ e ∈ resourceChanges g options, e.slot = (changePlace p kind).slot) ↔
        ∃ f ∈ mutationFields g, f.name = start ++ capitalize p.resource) ∧
      (∀ f ∈ mutationFields g, f.name = start ++ capitalize p.resource →
        p.has kind = true ∧ changeResource g p kind f ∈ resourceChanges g options) ∧
      (p.has kind = true → (∀ f ∈ mutationFields g, f.name ≠ start ++ capitalize p.resource) →
        (∃ f ∈ mutationFields g, f.name = start ++ p.resource) ∧ beginsLower p.resource = true ∧
          ∀ e ∈ resourceChanges g options, e.slot ≠ (changePlace p kind).slot) := by
  have hlawful := TypeGraph.lawful_of_ofSource? hg
  have hnames : ∀ f ∈ mutationFields g, isName f.name = true :=
    fun f hf => isName_of_mem_rootFields hlawful hf
  have hhas : ∀ f ∈ mutationFields g, f.name = expectedMutation start p → p.has kind = true :=
    fun f hf hname =>
      (has_iff_exists_changes hp hs).2 ⟨f, hf, changes_of_name_eq hnames hp hstart hname⟩
  have hat := exists_resourceChange_at_iff hlawful hp hs
  refine ⟨hat.trans ⟨And.right, ?_⟩, ?_, ?_⟩
  · rintro ⟨f, hf, hname⟩
    exact ⟨hhas f hf hname, f, hf, hname⟩
  · intro f hf hname
    have hkind := hhas f hf hname
    exact ⟨hkind, (mem_changeResources_iff hlawful).2
      ⟨p, hp, start, kind, hs, hkind, f, hf, hname, rfl⟩⟩
  · intro hkind hmissing
    obtain ⟨f, hf, hchanges⟩ := (has_iff_exists_changes hp hs).1 hkind
    obtain ⟨hname, hlower⟩ := (hchanges.name_eq_or (hnames f hf)).resolve_left (hmissing f hf)
    refine ⟨⟨f, hf, hname⟩, hlower, fun e he hslot => ?_⟩
    obtain ⟨-, f', hf', hname'⟩ := hat.1 ⟨e, he, hslot⟩
    exact hmissing f' hf' hname'

/-- Users are updated by a mutation in the expected spelling and created by one in another. -/
def misspelled : String :=
  "type Query \x7b users: [User] \x7d type User \x7b name: String \x7d " ++
  "type Mutation \x7b createuser: User updateUser: User \x7d"

theorem misspelled_creation_dropped :
    ∃ g, TypeGraph.ofSource? misspelled.toList = some g ∧ ∃ p ∈ resourcesOf g {},
      (∃ e ∈ resourceChanges g {}, e.slot = (changePlace p .update).slot) ∧ p.has .create = true ∧
        (∀ f ∈ mutationFields g, f.name ≠ "create" ++ capitalize p.resource) ∧
        ∀ e ∈ resourceChanges g {}, e.slot ≠ (changePlace p .create).slot := by
  obtain ⟨g, hg, p, hp, hupdate, hcreate, hmissing⟩ :=
    exists_graph misspelled
      (fun g => ∃ p ∈ resourcesOf g {},
        (∃ f ∈ mutationFields g, f.name = "update" ++ capitalize p.resource) ∧ p.has .create = true ∧
          ∀ f ∈ mutationFields g, f.name ≠ "create" ++ capitalize p.resource) (by decide +kernel)
  have hupdates : ("update", .update) ∈ ({} : Options).mutationPrefixes.operations := by decide
  have hcreates : ("create", .create) ∈ ({} : Options).mutationPrefixes.operations := by decide
  have hupdated := changes_emitted_iff_expected hg hp hupdates (by decide)
  have hcreated := changes_emitted_iff_expected hg hp hcreates (by decide)
  exact ⟨g, hg, p, hp, hupdated.1.2 hupdate, hcreate, hmissing,
    (hcreated.2.2 hcreate hmissing).2.2⟩

end Conversion

end GraphRest
