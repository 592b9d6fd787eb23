import GraphRest.Proofs.Conversion.Finished
import GraphRest.Proofs.Resource.Detection

/-!
# Detection and the order of fields

Of the queries that stand for a resource the last one decides on its plural and on its type. All else that
detection answers is the same in every order of the fields, so the order counts just where the queries of
a resource differ in one of these two.
-/

namespace GraphRest

open Sdl

variable {query query' mutation mutation' : List Field} {rules : InflectionRules}
  {prefixes : MutationPrefixes} {resource : String} {p p' : ResourcePattern}

/-- The queries of a resource agree: those that list it have one name, and all of them return one type,
so that it makes no difference which one comes last. -/
structure QueriesAgree (query : List Field) (rules : InflectionRules) (resource : String) : Prop where
  plural : ∀ f ∈ query, ∀ f' ∈ query, Lists rules resource f → Lists rules resource f' →
    f.name = f'.name
  target : ∀ f ∈ query, ∀ f' ∈ query, Lists rules resource f ∨ Gets rules resource f →
    Lists rules resource f' ∨ Gets rules resource f' → f.type.innermost = f'.type.innermost

theorem CrudSet.ext_has {s s' : CrudSet} (h : ∀ o, s.has o = s'.has o) : s = s' := by
  cases s
  cases s'
  simp only [CrudSet.mk.injEq]
  exact ⟨h .list, h .get, h .create, h .update, h .delete⟩

/-! ## Fields in another order -/

theorem isResource_iff_of_perm (hq : query'.Perm query) (hm : mutation'.Perm mutation) :
    IsResource query' mutation' rules prefixes resource ↔
      IsResource query mutation rules prefixes resource := by
  constructor
  · rintro ⟨⟨f, hf, hlists⟩, m, hmem, hchanges⟩
    exact ⟨⟨f, hq.mem_iff.1 hf, hlists⟩, m, hm.mem_iff.1 hmem, hchanges⟩
  · rintro ⟨⟨f, hf, hlists⟩, m, hmem, hchanges⟩
    exact ⟨⟨f, hq.mem_iff.2 hf, hlists⟩, m, hm.mem_iff.2 hmem, hchanges⟩

/-- What a pattern can do is told by which fields there are. -/
theorem ResourcePattern.Describes.operations_eq (hq : query'.Perm query) (hm : mutation'.Perm mutation)
    (hr : p'.resource = p.resource) (h : p.Describes query mutation rules prefixes)
    (h' : p'.Describes query' mutation' rules prefixes) : p'.operations = p.operations := by
  refine CrudSet.ext_has fun o => Bool.eq_iff_iff.2 ?_
  have hget := h'.get
  have hupdate := h'.update
  have hdelete := h'.delete
  simp only [hq.mem_iff, hm.mem_iff, hr] at hget hupdate hdelete
  cases o with
  | list => exact iff_of_true h'.list h.list
  | get => exact hget.trans h.get.symm
  | create => exact iff_of_true h'.create h.create
  | update => exact hupdate.trans h.update.symm
  | delete => exact hdelete.trans h.delete.symm

/-- Where the queries of a resource agree, it is described alike in every order of the fields. -/
theorem ResourcePattern.Describes.eq_of_perm (hq : query'.Perm query) (hm : mutation'.Perm mutation)
    (hagree : QueriesAgree query rules p.resource) (hr : p'.resource = p.resource)
    (h : p.Describes query mutation rules prefixes)
    (h' : p'.Describes query' mutation' rules prefixes) : p' = p := by
  have hplural : p'.plural = p.plural := by
    obtain ⟨f, hf, hn⟩ := h.plural
    obtain ⟨f', hf', hn'⟩ := h'.plural
    rw [hn, hn']
    exact hagree.plural f' (hq.mem_iff.1 hf'.mem) f hf.mem (hr ▸ hf'.prop) hf.prop
  have htarget : p'.target = p.target := by
    obtain ⟨f, hf, ht⟩ := h.target
    obtain ⟨f', hf', ht'⟩ := h'.target
    rw [ht, ht']
    exact hagree.target f' (hq.mem_iff.1 hf'.mem) f hf.mem (hr ▸ hf'.prop) hf.prop
  have hoperations : p'.operations = p.operations := h.operations_eq hq hm hr h'
  cases p
  cases p'
  simp only [ResourcePattern.mk.injEq]
  exact ⟨hr, hplural, htarget, hoperations⟩

/-! ## Detection -/

theorem mem_detectResources_of_perm (hq : query'.Perm query) (hm : mutation'.Perm mutation)
    (hagree : ∀ r, IsResource query mutation rules prefixes r → QueriesAgree query rules r)
    (hp : p ∈ detectResources query mutation rules prefixes) :
    p ∈ detectResources query' mutation' rules prefixes := by
  have hresource := isResource_of_mem_detectResources hp
  obtain ⟨p', hp', hr⟩ := exists_mem_detectResources ((isResource_iff_of_perm hq hm).2 hresource)
  have heq : p' = p := (describes_of_mem_detectResources hp).eq_of_perm hq hm
    (hagree _ hresource) hr (describes_of_mem_detectResources hp')
  exact heq ▸ hp'

/-- As patterns stand in the order of their resources, detection is told by which patterns it answers. -/
theorem eq_of_mem_iff_detectResources
    (h : ∀ p, p ∈ detectResources query' mutation' rules prefixes ↔
      p ∈ detectResources query mutation rules prefixes) :
    detectResources query' mutation' rules prefixes =
      detectResources query mutation rules prefixes := by
  have hordered : ∀ query mutation, (detectResources query mutation rules prefixes).Pairwise
      fun p p' => p.resource < p'.resource :=
    fun _ _ => pairwise_detectResources.imp Text.bytes_lt_iff.1
  have hnodup : ∀ query mutation, (detectResources query mutation rules prefixes).Nodup :=
    fun _ _ => List.Pairwise.imp (fun hlt => ne_of_apply_ne ResourcePattern.resource
      fun heq => String.lt_irrefl _ (heq ▸ hlt)) (hordered _ _)
  refine List.Perm.eq_of_pairwise ?_ (hordered _ _) (hordered _ _) ?_
  · exact fun p p' _ _ hlt hlt' => absurd (String.lt_trans hlt hlt') (String.lt_irrefl _)
  · exact (List.perm_ext_iff_of_nodup (hnodup _ _) (hnodup _ _)).2 h

theorem detectResources_eq_of_perm (hq : query'.Perm query) (hm : mutation'.Perm mutation)
    (hagree : ∀ r, IsResource query mutation rules prefixes r → QueriesAgree query rules r) :
    detectResources query' mutation' rules prefixes =
      detectResources query mutation rules prefixes := by
  refine eq_of_mem_iff_detectResources fun p =>
    ⟨mem_detectResources_of_perm hq.symm hm.symm fun r hr => ?_,
      mem_detectResources_of_perm hq hm hagree⟩
  have hr := hagree r ((isResource_iff_of_perm hq hm).1 hr)
  exact ⟨fun f hf f' hf' => hr.plural f (hq.mem_iff.1 hf) f' (hq.mem_iff.1 hf'),
    fun f hf f' hf' => hr.target f (hq.mem_iff.1 hf) f' (hq.mem_iff.1 hf')⟩

/-- A resource that is detected alike in every order of the queries is described by each of them, as
each of them comes last in some order. -/
theorem queriesAgree_of_forall_perm (hp : p ∈ detectResources query mutation rules prefixes)
    (h : ∀ query', query'.Perm query →
      detectResources query' mutation rules prefixes = detectResources query mutation rules prefixes) :
    QueriesAgree query rules p.resource := by
  have hdescribes : ∀ query', query'.Perm query → p.Describes query' mutation rules prefixes :=
    fun query' hq => describes_of_mem_detectResources ((h query' hq).symm ▸ hp)
  have hplural : ∀ f ∈ query, Lists rules p.resource f → p.plural = f.name := by
    intro f hf hlists
    obtain ⟨query', hq, hlast⟩ := exists_perm_isLast hf hlists
    obtain ⟨l, hl, hn⟩ := (hdescribes query' hq).plural
    rw [hn, hl.eq hlast]
  have htarget : ∀ f ∈ query, Lists rules p.resource f ∨ Gets rules p.resource f →
      p.target = f.type.innermost := by
    intro f hf hreads
    obtain ⟨query', hq, hlast⟩ :=
      exists_perm_isLast (P := fun f => Lists rules p.resource f ∨ Gets rules p.resource f) hf hreads
    obtain ⟨l, hl, ht⟩ := (hdescribes query' hq).target
    rw [ht, hl.eq hlast]
  constructor
  · exact fun f hf f' hf' h h' => (hplural f hf h).symm.trans (hplural f' hf' h')
  · exact fun f hf f' hf' h h' => (htarget f hf h).symm.trans (htarget f' hf' h')

/-- Detection answers the same in every order of the fields just if the queries of each resource
agree. -/
theorem detectResources_perm_iff (query mutation : List Field) (rules : InflectionRules)
    (prefixes : MutationPrefixes) :
    (∀ query' mutation', query'.Perm query → mutation'.Perm mutation →
      detectResources query' mutation' rules prefixes =
        detectResources query mutation rules prefixes) ↔
    ∀ resource, IsResource query mutation rules prefixes resource →
      QueriesAgree query rules resource := by
  constructor
  · intro h resource hresource
    obtain ⟨p, hp, rfl⟩ := exists_mem_detectResources hresource
    exact queriesAgree_of_forall_perm hp fun query' hq => h query' mutation hq (.refl _)
  · intro hagree query' mutation' hq hm
    exact detectResources_eq_of_perm hq hm hagree

namespace Conversion

/-- A user that is got whole and listed in short. -/
def outlined : String :=
  "type Query \x7b user(id: ID!): User users: [UserOutline!]! \x7d " ++
  "type Mutation \x7b createUser(name: String!): User \x7d " ++
  "type User \x7b id: ID! name: String! \x7d type UserOutline \x7b id: ID! \x7d"

/-- With its two queries in the other order the resource has another type. -/
theorem outlined_reversed_differs : ∃ g, TypeGraph.ofSource? outlined.toList = some g ∧
    ((queryFields g).map Field.name).Nodup ∧ ((mutationFields g).map Field.name).Nodup ∧
    ∃ query', query'.Perm (queryFields g) ∧
      detectResources query' (mutationFields g) {} {} ≠
        detectResources (queryFields g) (mutationFields g) {} {} := by
  obtain ⟨g, hg, hq, hm, hne⟩ := exists_graph outlined
    (fun g => ((queryFields g).map Field.name).Nodup ∧ ((mutationFields g).map Field.name).Nodup ∧
      detectResources (queryFields g).reverse (mutationFields g) {} {} ≠
        detectResources (queryFields g) (mutationFields g) {} {}) (by decide +kernel)
  exact ⟨g, hg, hq, hm, _, List.reverse_perm _, hne⟩

end Conversion

end GraphRest
