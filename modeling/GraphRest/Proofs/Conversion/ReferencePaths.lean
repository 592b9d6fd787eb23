import GraphRest.Proofs.Conversion.Properties
import GraphRest.Proofs.Endpoint.Collision

/-!
# Where references lead

A property that stands for a member of a structured type tells in its description where that is read. The
path there is made from the name of the type alone, so it need not be one of the document.
-/

namespace GraphRest

open Sdl Endpoint

/-- The description of a reference to a type, with the path at which that is read. -/
def referenceText (target path : String) : String :=
  "Reference to " ++ target ++ ".id - use GET " ++ path

/-- The path in the description of a reference is one to read at, with `id` in place of the key. -/
def Leads (d : Document) (target : String) (x : String × Fragment) : Prop :=
  ∃ base, x.2.description = some (referenceText target (base ++ "/" ++ placeholder x.1)) ∧
    (d.operation? (base ++ "/" ++ placeholder "id") .get).isSome = true

/-- A property that a component has for a single member of a structured type. -/
structure RefersFor (g : TypeGraph) (options : Options) (d : Document) (m : Member)
    (x : String × Fragment) : Prop where
  structured : (g.role m.type.innermost).isStructured = true
  property : property? g options.inflection m = some x
  stands : ∃ t ∈ g.types, m ∈ t.body.members ∧ ∃ f, d.components.get? t.name = some f ∧
    OrderedMap.get? x.1 f.properties = some x.2

variable {g : TypeGraph} {options : Options} {d : Document} {m : Member} {x : String × Fragment}

theorem referenceText_inj {target path path' : String}
    (h : referenceText target path = referenceText target path') : path = path' :=
  (String.append_right_inj _).1 h

theorem description_identifierFragment (rules : InflectionRules) (m : Member) :
    (identifierFragment rules m).description = some (referenceText m.type.innermost
      (nameRoute (collectionName rules m.type.innermost) ++ "/" ++
        placeholder (identifierKey m.name))) := by
  have hslash : ".id - use GET /" = ".id - use GET " ++ "/" := rfl
  have hbrace : "/\x7b" = "/" ++ "\x7b" := rfl
  simp only [identifierFragment, Fragment.described, referenceText, nameRoute, placeholder, hslash,
    hbrace, String.append_assoc]

theorem RefersFor.eq (h : RefersFor g options d m x) :
    x = (identifierKey m.name, identifierFragment options.inflection m) := by
  have hx := h.property
  rw [property?, h.structured] at hx
  split at hx
  · contradiction
  · split at hx
    · cases hx
    · exact (Option.some.inj hx).symm

/-- The only path that a reference can lead to is that of the items of its collection. -/
theorem RefersFor.leads_iff (h : RefersFor g options d m x) : Leads d m.type.innermost x ↔
    (d.operation? (itemRoute (collectionName options.inflection m.type.innermost)) .get).isSome =
      true := by
  obtain rfl := h.eq
  have hdescription := description_identifierFragment options.inflection m
  constructor
  · rintro ⟨base, htext, hop⟩
    rw [hdescription] at htext
    have hpath := referenceText_inj (Option.some.inj htext)
    rw [String.append_left_inj, String.append_left_inj] at hpath
    rwa [itemRoute, hpath]
  · intro hop
    exact ⟨_, hdescription, hop⟩

namespace Conversion

variable {source : String} {c : Conversion}

/-- If the members of a type keep their keys apart, its component refers for each single one of them that
is of a structured type. -/
theorem refersFor_of_nodup (hg : TypeGraph.ofSource? source.toList = some g)
    (hc : convert? options source = some c) {t : TypeDefinition} (ht : t ∈ g.types)
    (hk : t.body.kind = .object ∨ t.body.kind = .input) (hx : isExposed g t = true)
    (hkeys : ((retained g t.body.members).map (propertyKey g)).Nodup) (hm : m ∈ t.body.members)
    (hs : (g.role m.type.innermost).isStructured = true) (hl : m.type.isList = false) :
    RefersFor g options c.document m
      (identifierKey m.name, identifierFragment options.inflection m) := by
  have hproperty : property? g options.inflection m =
      some (identifierKey m.name, identifierFragment options.inflection m) := by
    rw [property?, hs, hl]
    rfl
  have hdistinct :
      (OrderedMap.keys (t.body.members.filterMap (property? g options.inflection))).Nodup := by
    rwa [keys_filterMap_property?]
  refine ⟨hs, hproperty, t, ht, hm, _, (get?_components_iff hg hc ht).2 ⟨hx, component?_of_kind hk⟩, ?_⟩
  rw [objectComponent, properties, OrderedMap.ofList_of_nodup hdistinct,
    OrderedMap.get?_eq_some_iff_mem hdistinct]
  exact List.mem_filterMap.2 ⟨m, hm, hproperty⟩

/-- The items of a collection can be read just if a resource has the name of the collection as its plural
and gets single items, or a subscription has that name and an `id` in its path. -/
theorem isSome_item_iff (hg : TypeGraph.ofSource? source.toList = some g)
    (hc : convert? options source = some c) (collection : String) :
    (c.document.operation? (options.path (itemRoute collection)) .get).isSome = true ↔
      (∃ p ∈ c.patterns, p.plural = collection ∧ p.has .get = true) ∨
        StreamsBelow g collection "id" := by
  have hlawful := TypeGraph.lawful_of_ofSource? hg
  have hpatterns : c.patterns = patternsOf g options := by
    rw [convert?_of_ofSource? options hg] at hc
    cases hc
    rfl
  have hbelow : (∃ e ∈ written g options, options.path e.route = options.path (itemRoute collection) ∧
      e.method = .get) ↔ ∃ s e, Emitted g options s (.below .get collection "id") e := by
    constructor
    · rintro ⟨e, he, hroute, hmethod⟩
      obtain ⟨s, pl, hemitted⟩ := (mem_written_iff hlawful).1 he
      obtain ⟨hr, hm⟩ := Prod.mk.inj hemitted.slot_eq
      obtain ⟨m, rfl⟩ := Place.eq_below_of_itemRoute (hemitted.isName_of_mem hlawful)
        (hr.symm.trans (Options.path_inj.1 hroute))
      obtain rfl : Method.get = m := hmethod.symm.trans hm
      exact ⟨s, e, hemitted⟩
    · rintro ⟨s, e, hemitted⟩
      obtain ⟨hr, hm⟩ := Prod.mk.inj hemitted.slot_eq
      exact ⟨e, (mem_written_iff hlawful).2 ⟨s, _, hemitted⟩, by rw [hr]; rfl, hm⟩
  rw [isSome_operation?_iff hg hc, hbelow, exists_emitted_below_iff, hpatterns]
  simp only [true_and, serves_get_iff]

/-- The description of a reference names the items of the plural of its type in lower case. Without a
prefix of paths they can be read just if that plural is the one of a resource that gets single items, or
the name of a subscription with an `id` in its path. -/
theorem references_lead_iff (hg : TypeGraph.ofSource? source.toList = some g)
    (hc : convert? options source = some c) (hpre : options.pathPrefix = "") :
    ∀ m x, RefersFor g options c.document m x →
      x.2.description = some (referenceText m.type.innermost
        (nameRoute (collectionName options.inflection m.type.innermost) ++ "/" ++ placeholder x.1)) ∧
      (Leads c.document m.type.innermost x ↔
        (∃ p ∈ c.patterns, p.plural = collectionName options.inflection m.type.innermost ∧
          p.has .get = true) ∨
        StreamsBelow g (collectionName options.inflection m.type.innermost) "id") := by
  intro m x hx
  constructor
  · rw [hx.eq]
    exact description_identifierFragment options.inflection m
  · have hpath : ∀ route, options.path route = route := fun route => by
      rw [Options.path, hpre, String.empty_append]
    have hitem := isSome_item_iff hg hc (collectionName options.inflection m.type.innermost)
    rwa [hpath, ← hx.leads_iff] at hitem

/-- Users that are listed and read, with a reference to one of their own. -/
def managed : String :=
  "type Query \x7b users: [User] user(id: ID): User \x7d type Mutation \x7b createUser: User \x7d " ++
  "type User \x7b boss: User \x7d"

theorem managed_reference_leads : ∃ g c, TypeGraph.ofSource? managed.toList = some g ∧
    convert? {} managed = some c ∧ ({} : Options).pathPrefix = "" ∧
    ∃ m x, RefersFor g {} c.document m x ∧ m.name = "boss" ∧ Leads c.document "User" x := by
  obtain ⟨g, hg, ⟨t, ht, hk, hx, hkeys, m, hm, hn, htype, hs, hl⟩, p, hp, hplural, hget⟩ :=
    exists_graph managed (fun g =>
      (∃ t ∈ g.types, t.body.kind = .object ∧ isExposed g t = true ∧
        ((retained g t.body.members).map (propertyKey g)).Nodup ∧
        ∃ m ∈ t.body.members, m.name = "boss" ∧ m.type.innermost = "User" ∧
          (g.role m.type.innermost).isStructured = true ∧ m.type.isList = false) ∧
      ∃ p ∈ patternsOf g {}, p.plural = collectionName {} "User" ∧ p.has .get = true)
      (by decide +kernel)
  have hc := convert?_of_ofSource? {} hg
  have hrefers := refersFor_of_nodup hg hc ht (Or.inl hk) hx hkeys hm hs hl
  have hleads := (references_lead_iff hg hc rfl m _ hrefers).2.2 (Or.inl ⟨p, hp, htype ▸ hplural, hget⟩)
  exact ⟨g, _, hg, hc, rfl, m, _, hrefers, hn, htype ▸ hleads⟩

/-- Posts whose list and type have a capital inside, with a reference to them. -/
def blogging : String :=
  "type Query \x7b blogPosts: [BlogPost] blogPost(id: ID): BlogPost \x7d " ++
  "type Mutation \x7b createBlogPost: BlogPost \x7d type BlogPost \x7b reply: BlogPost \x7d"

/-- The items of a resource can be read, and references to them lead elsewhere. -/
theorem blogging_reference_misleads : ∃ g c, TypeGraph.ofSource? blogging.toList = some g ∧
    convert? {} blogging = some c ∧ ({} : Options).pathPrefix = "" ∧
    ∃ p ∈ c.patterns, p.has .get = true ∧ ∃ m x, RefersFor g {} c.document m x ∧
      m.type.innermost = p.target ∧ ¬ Leads c.document p.target x := by
  obtain ⟨g, hg, t, ht, hk, hx, hkeys, p, hp, hget, m, hm, htype, hs, hl, hnone⟩ :=
    exists_graph blogging (fun g => ∃ t ∈ g.types, t.body.kind = .object ∧ isExposed g t = true ∧
      ((retained g t.body.members).map (propertyKey g)).Nodup ∧
      ∃ p ∈ patternsOf g {}, p.has .get = true ∧ ∃ m ∈ t.body.members, m.type.innermost = p.target ∧
        (g.role m.type.innermost).isStructured = true ∧ m.type.isList = false ∧
        ((ofGraph {} blogging g).document.operation?
          (itemRoute (collectionName {} m.type.innermost)) .get).isSome = false)
      (by decide +kernel)
  have hc := convert?_of_ofSource? {} hg
  have hrefers := refersFor_of_nodup hg hc ht (Or.inl hk) hx hkeys hm hs hl
  refine ⟨g, _, hg, hc, rfl, p, hp, hget, m, _, hrefers, htype, fun hleads => ?_⟩
  rw [← htype, hrefers.leads_iff] at hleads
  exact absurd (hnone.symm.trans hleads) (by decide)

end Conversion

end GraphRest
