import GraphRest.Proofs.Conversion.Properties
import GraphRest.Proofs.Endpoint.Collision

/-!
# Where the fields of object types are found

A list of a structured type has an endpoint below its owner, every other field a property. Endpoints
and components ask different questions on the type of a field, which between them leave no field out.
-/

namespace GraphRest

open Sdl

theorem TypeRole.isScalar_of_isStructured {r : TypeRole} (h : r.isStructured = true) :
    r.isScalar = false := by
  cases r <;> first | rfl | cases h

/-- The path of a field of an object type below the items of the type. -/
def memberPath (options : Options) (owner field : String) : String :=
  options.pathPrefix ++ "/" ++ options.inflection.pluralize (Text.lowerAscii owner) ++
    "/\x7bid\x7d/" ++ field

/-- A document has a place for a field of an object type: the list of a structured type is got below
the items of its owner, and any other field is a property, which is required if it is never null. -/
structure Accounted (g : TypeGraph) (options : Options) (doc : Document) (owner : String)
    (component : Fragment) (m : Member) : Prop where
  collection : m.type.isList = true → (g.role m.type.innermost).isStructured = true →
    ∃ owner' f, collectionName options.inflection owner' = collectionName options.inflection owner ∧
      f.name = m.name ∧ doc.operation? (memberPath options owner m.name) .get =
        some (Endpoint.memberEndpoint options.inflection owner' f).operation
  property : (m.type.isList = false ∨ (g.role m.type.innermost).isStructured = false) →
    propertyKey g m ∈ OrderedMap.keys component.properties ∧
      (m.type.isNonNull = true → propertyKey g m ∈ component.required)

variable {g : TypeGraph} {options : Options} {d : TypeDefinition} {m : Member}

/-! ## Endpoints of lists -/

namespace Endpoint

theorem isCollection_of_isStructured {f : Field} (hl : f.type.isList = true)
    (hs : (g.role f.type.innermost).isStructured = true) : isCollection g f = true := by
  rw [isCollection, hl, TypeRole.isScalar_of_isStructured hs]
  rfl

theorem path_memberEndpoint (owner : String) (f : Field) :
    options.path (memberEndpoint options.inflection owner f).route =
      memberPath options owner f.name := by
  have hid : "/" ++ placeholder "id" ++ "/" = "/\x7bid\x7d/" := by decide
  simp only [memberEndpoint, memberPath, Options.path, itemRoute, nameRoute, collectionName, ← hid,
    String.append_assoc]

theorem Emitted.exists_of_member {s : Stage} {pl : Place} {e : Endpoint} {collection name : String}
    (h : Emitted g options s pl e) (hpl : pl = .member collection name) :
    ∃ owner f, collectionName options.inflection owner = collection ∧ f.name = name ∧
      e = memberEndpoint options.inflection owner f := by
  cases h with
  | @member d is fs f hd hx hb hf hc =>
      obtain ⟨rfl, rfl⟩ := Place.member.inj hpl
      exact ⟨d.name, f, rfl, rfl, rfl⟩
  | change _ _ _ _ _ => exact absurd hpl ((changePlace_ne_get (a := "id")).2.2 _)
  | stream _ _ => exact absurd hpl streamPlace_ne_member
  | _ => cases hpl

end Endpoint

namespace Conversion

open Endpoint

variable {source : String} {c : Conversion}

theorem exists_operation_of_member (hg : TypeGraph.ofSource? source.toList = some g)
    (hc : convert? options source = some c) (hd : d ∈ g.types) (hx : isExposed g d = true)
    (hk : d.body.kind = .object) (hm : m ∈ d.body.members) (hl : m.type.isList = true)
    (hs : (g.role m.type.innermost).isStructured = true) :
    ∃ owner f, collectionName options.inflection owner = collectionName options.inflection d.name ∧
      f.name = m.name ∧ c.document.operation? (memberPath options d.name m.name) .get =
        some (memberEndpoint options.inflection owner f).operation := by
  cases hb : d.body with
  | object is fs =>
      rw [hb] at hm
      obtain ⟨f, hf, rfl⟩ := List.mem_map.1 hm
      have hemitted : Emitted g options .members _ _ :=
        .member hd hx hb hf (isCollection_of_isStructured hl hs)
      -- Whatever stands at the place of the member is the endpoint of a field of its name.
      obtain ⟨s, e, he, hstands⟩ := exists_emitted_standsIn hg hc hemitted
      have hslot : e.slot = _ := he.slot_eq.trans hemitted.slot_eq.symm
      obtain ⟨owner, f', howner, hname, rfl⟩ := he.exists_of_member rfl
      have hpath : options.path (memberEndpoint options.inflection owner f').route =
          memberPath options d.name f.name := by
        rw [(Prod.mk.inj hslot).1, path_memberEndpoint]
      exact ⟨owner, f', howner, hname, hpath ▸ hstands⟩
  | _ => rw [hb] at hk; cases hk

/-- Every field of an object type that is no root has its place in the document, and the component
of the type requires none but its own properties. -/
theorem fields_accounted_for (hg : TypeGraph.ofSource? source.toList = some g)
    (hc : convert? options source = some c) (hd : d ∈ g.types) (hk : d.body.kind = .object)
    (hroot : g.roots.contains d.name = false) (hr : isReservedName d.name = false) :
    ∃ component, c.document.components.get? d.name = some component ∧
      (∀ m ∈ d.body.members, Accounted g options c.document d.name component m) ∧
      ∀ key ∈ component.required, key ∈ OrderedMap.keys component.properties := by
  have hx : isExposed g d = true := by rw [isExposed, hroot, hr]; rfl
  have hrep : Represents g options.inflection d.body.members
      (objectComponent g options.inflection d.description d.body.members) :=
    represents_objectComponent (distinct_members (TypeGraph.lawful_of_ofSource? hg) hd)
  refine ⟨_, (get?_components_iff hg hc hd).2 ⟨hx, component?_of_kind (Or.inl hk)⟩, ?_, ?_⟩
  · intro m hm
    constructor
    · exact exists_operation_of_member hg hc hd hx hk hm
    · intro h
      have hmem : m ∈ retained g d.body.members := mem_retained_iff.2 ⟨hm,
        h.elim isRetained_of_single isRetained_of_embedded⟩
      exact ⟨hrep.mem_keys_iff.2 ⟨m, hmem, rfl⟩,
        fun hn => hrep.mem_required_iff.2 ⟨m, hmem, hn, rfl⟩⟩
  · intro key hkey
    obtain ⟨m, hm, -, hn⟩ := hrep.mem_required_iff.1 hkey
    exact hrep.mem_keys_iff.2 ⟨m, hm, hn⟩

/-- An album with a text, a single artist, and lists of tracks and of texts. -/
def album : String :=
  "type Query \x7b album: Album \x7d " ++
  "type Album \x7b title: String artist: Artist! tracks: [[Track!]!] tags: [String!]! \x7d " ++
  "type Artist \x7b id: ID \x7d union Track = Artist"

theorem album_fields_found : ∃ g c, TypeGraph.ofSource? album.toList = some g ∧
    convert? { pathPrefix := "/v1" } album = some c ∧
    (∃ o, c.document.operation? "/v1/albums/\x7bid\x7d/tracks" .get = some o) ∧
    ∃ f, c.document.components.get? "Album" = some f ∧
      "artistId" ∈ OrderedMap.keys f.properties ∧ "artistId" ∈ f.required ∧
      "tags" ∈ OrderedMap.keys f.properties ∧ "tags" ∈ f.required := by
  obtain ⟨g, hg, d, hd, hn, hk, hroot, hr, ⟨tracks, htracks, hnt, hlt, hst⟩,
    ⟨artist, hartist, hka, hla, hna⟩, tags, htags, hkt, hst', hnn⟩ := exists_graph album
    (fun g => ∃ d ∈ g.types, d.name = "Album" ∧ d.body.kind = .object ∧
      g.roots.contains d.name = false ∧ isReservedName d.name = false ∧
      (∃ m ∈ d.body.members, m.name = "tracks" ∧ m.type.isList = true ∧
        (g.role m.type.innermost).isStructured = true) ∧
      (∃ m ∈ d.body.members, propertyKey g m = "artistId" ∧ m.type.isList = false ∧
        m.type.isNonNull = true) ∧
      ∃ m ∈ d.body.members, propertyKey g m = "tags" ∧
        (g.role m.type.innermost).isStructured = false ∧ m.type.isNonNull = true)
    (by decide +kernel)
  have hc := convert?_of_ofSource? { pathPrefix := "/v1" } hg
  obtain ⟨f, hf, hfields, -⟩ := fields_accounted_for hg hc hd hk hroot hr
  refine ⟨g, _, hg, hc, ?_, f, hn ▸ hf, ?_, ?_, ?_, ?_⟩
  · obtain ⟨owner, f', -, -, ho⟩ := (hfields tracks htracks).collection hlt hst
    rw [hn, hnt, memberPath] at ho
    exact ⟨_, ho⟩
  · exact hka ▸ ((hfields artist hartist).property (Or.inl hla)).1
  · exact hka ▸ ((hfields artist hartist).property (Or.inl hla)).2 hna
  · exact hkt ▸ ((hfields tags htags).property (Or.inr hst')).1
  · exact hkt ▸ ((hfields tags htags).property (Or.inr hst')).2 hnn

end Conversion

end GraphRest
