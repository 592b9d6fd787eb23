import GraphRest.Proofs.Conversion.ComponentReferences
import GraphRest.Proofs.Conversion.Finished

/-!
# Components are flat

A component embeds no other one, and its properties refer to enums only: a member of a structured
type is an identifier or no property at all. So components are finite however the types refer to each
other, and only unions lead from one to another.
-/

namespace GraphRest

open Sdl

namespace Fragment

/-- A node that neither embeds nor lists anything but the elements of an array. -/
structure IsBare (f : Fragment) : Prop where
  properties : f.properties = []
  required : f.required = []
  enumValues : f.enumValues = []
  oneOf : f.oneOf = []

/-- Arrays of arrays, down to a bare node. -/
inductive IsChain : Fragment → Prop where
  | last {f} : f.IsBare → f.items = none → IsChain f
  | array {f element} : f.IsBare → f.type = some .array → f.reference = none →
      f.items = some element → IsChain element → IsChain f

theorem skeleton_eq_iff {f f' : Fragment} : f.skeleton = f'.skeleton ↔
    f.type = f'.type ∧ f.properties = f'.properties ∧ f.required = f'.required ∧
      f.items = f'.items ∧ f.reference = f'.reference ∧ f.enumValues = f'.enumValues ∧
      f.oneOf = f'.oneOf := by
  simp [skeleton]

theorem IsBare.of_skeleton_eq {f f' : Fragment} (h : f.skeleton = f'.skeleton) (hf : f.IsBare) :
    f'.IsBare := by
  obtain ⟨-, hproperties, hrequired, -, -, henum, honeOf⟩ := skeleton_eq_iff.1 h
  exact ⟨hproperties ▸ hf.properties, hrequired ▸ hf.required, henum ▸ hf.enumValues,
    honeOf ▸ hf.oneOf⟩

theorem IsChain.of_skeleton_eq {f f' : Fragment} (h : f.skeleton = f'.skeleton) (hf : f.IsChain) :
    f'.IsChain := by
  obtain ⟨htype, -, -, hitems, href, -⟩ := skeleton_eq_iff.1 h
  cases hf with
  | last hbare hnone => exact .last (hbare.of_skeleton_eq h) (hitems ▸ hnone)
  | array hbare harray hplain hsome helement =>
      exact .array (hbare.of_skeleton_eq h) (htype ▸ harray) (href ▸ hplain) (hitems ▸ hsome)
        helement

end Fragment

open Fragment

variable {g : TypeGraph} {rules : InflectionRules} {d : TypeDefinition} {m : Member} {n r : String}

/-! ## Fragments of types -/

theorem isBare_of_scalar {f : Fragment} (h : scalarFragment? n = some f) : f.IsBare := by
  unfold scalarFragment? at h
  split at h <;> cases h <;> exact ⟨rfl, rfl, rfl, rfl⟩

theorem TypeRole.eq_enum {r : TypeRole} (hr : r.isReferenced = true) (hs : r.isStructured = false) :
    r = .enum := by
  cases r <;> first | rfl | exact absurd hr (by decide) | exact absurd hs (by decide)

theorem builtIn_enums : ∀ x ∈ BuiltIn.types.map (fun d => (d.name, d.body.kind)),
    x.2 = .enum → x.1 = "__TypeKind" ∨ x.1 = "__DirectiveLocation" := by
  decide +kernel

namespace Sdl.TypeGraph

theorem isBare_namedFragment (g : TypeGraph) (n : String) : (g.namedFragment n).IsBare := by
  unfold namedFragment
  cases hs : scalarFragment? n with
  | some f => exact isBare_of_scalar hs
  | none => dsimp only; cases g.role n <;> exact ⟨rfl, rfl, rfl, rfl⟩

theorem isChain_fragment (g : TypeGraph) (t : TypeRef) : (g.fragment t).IsChain := by
  induction t with
  | named n _ => exact .last (isBare_namedFragment g n) (items_namedFragment g n)
  | list element _ ih => exact .array ⟨rfl, rfl, rfl, rfl⟩ rfl rfl rfl ih

theorem exists_of_role_enum (h : g.role n = .enum) :
    ∃ e, g.type? n = some e ∧ e.body.kind = .enum := by
  have href : (g.role n).isReferenced = true := by rw [h]; rfl
  obtain ⟨hs, hroot, e, he, -⟩ := isReferenced_iff.1 href
  refine ⟨e, he, ?_⟩
  rw [role, hs, hroot, he] at h
  cases hk : e.body.kind <;> simp [hk, TypeRole.ofKind] at h ⊢

/-- An enum is declared or one of the two that describe schemas. -/
theorem Lawful.enum_of_role (hg : g.Lawful) (h : g.role n = .enum) :
    (∃ e ∈ g.types, e.body.kind = .enum ∧ e.name = n) ∨
      n = "__TypeKind" ∨ n = "__DirectiveLocation" := by
  obtain ⟨e, he, hk⟩ := exists_of_role_enum h
  obtain ⟨hmem, hn⟩ := hg.type?_eq_some_iff.1 he
  rcases List.mem_append.1 hmem with hmem | hmem
  · exact Or.inl ⟨e, hmem, hk, hn⟩
  · have hkind := List.mem_map_of_mem (f := fun d => (d.name, d.body.kind)) hmem
    rw [hg.builtIn_kinds] at hkind
    exact Or.inr (hn ▸ builtIn_enums _ hkind hk)

theorem Lawful.kind_of_role_enum (hg : g.Lawful) (hd : d ∈ g.types) (h : g.role d.name = .enum) :
    d.body.kind = .enum := by
  obtain ⟨e, he, hk⟩ := exists_of_role_enum h
  rw [hg.type?_eq_some_iff.2 ⟨List.mem_append_left _ hd, rfl⟩] at he
  exact Option.some.inj he ▸ hk

end Sdl.TypeGraph

/-! ## Properties -/

/-- What can be a property of a component: it embeds nothing, and what it refers to is an enum. -/
structure FlatProperty (g : TypeGraph) (f : Fragment) : Prop where
  chain : f.IsChain
  enums : ∀ r ∈ f.references, ∃ n, r = componentPrefix ++ n ∧ g.role n = .enum

theorem flatProperty_embeddedFragment (hs : (g.role m.type.innermost).isStructured = false) :
    FlatProperty g (embeddedFragment g m) where
  chain := (g.isChain_fragment m.type).of_skeleton_eq (skeleton_embeddedFragment g m).symm
  enums r hr := by
    rw [references_embeddedFragment, TypeGraph.references_fragment,
      TypeGraph.references_namedFragment] at hr
    split at hr
    · rename_i href
      exact ⟨_, List.mem_singleton.1 hr, TypeRole.eq_enum href hs⟩
    · cases hr

theorem flatProperty_identifierFragment : FlatProperty g (identifierFragment rules m) where
  chain := .last ⟨rfl, rfl, rfl, rfl⟩ rfl
  enums r hr := by
    rw [identifierFragment, references_described, references_string] at hr
    cases hr

theorem flatProperty_of_property? {x : String × Fragment} (hx : property? g rules m = some x) :
    FlatProperty g x.2 := by
  unfold property? at hx
  cases hs : (g.role m.type.innermost).isStructured with
  | false =>
      rw [hs] at hx
      cases hx
      exact flatProperty_embeddedFragment hs
  | true =>
      rw [hs] at hx
      cases hl : m.type.isList with
      | true => rw [hl] at hx; cases hx
      | false =>
          rw [hl] at hx
          cases hx
          exact flatProperty_identifierFragment

theorem flatProperty_of_mem_properties {ms : List Member} {x : String × Fragment}
    (hx : x ∈ properties g rules ms) : FlatProperty g x.2 := by
  obtain ⟨m, -, hx⟩ := List.mem_filterMap.1 (OrderedMap.mem_of_mem_ofList hx)
  exact flatProperty_of_property? hx

/-! ## Components -/

/-- A component embeds no other one: its properties are chains that refer to nothing but enums, and
the alternatives of a union are plain references. -/
structure Flat (g : TypeGraph) (f : Fragment) : Prop where
  chains : ∀ x ∈ f.properties, x.2.IsChain
  enums : ∀ x ∈ f.properties, ∀ r ∈ x.2.references,
    (∃ e ∈ g.types, e.body.kind = .enum ∧ r = componentPrefix ++ e.name) ∨
      r = componentPrefix ++ "__TypeKind" ∨ r = componentPrefix ++ "__DirectiveLocation"
  unstructured : ∀ x ∈ f.properties, ∀ d ∈ g.types,
    d.body.kind ∈ [.object, .interface, .input, .union] →
      componentPrefix ++ d.name ∉ x.2.references
  alternatives : ∀ f' ∈ f.oneOf, ∃ n, f' = .referTo n

theorem Flat.of_properties {f : Fragment} (hg : g.Lawful)
    (hproperties : ∀ x ∈ f.properties, FlatProperty g x.2)
    (halternatives : ∀ f' ∈ f.oneOf, ∃ n, f' = .referTo n) : Flat g f where
  chains x hx := (hproperties x hx).chain
  enums x hx r hr := by
    obtain ⟨n, rfl, hn⟩ := (hproperties x hx).enums r hr
    rcases hg.enum_of_role hn with ⟨e, he, hk, rfl⟩ | rfl | rfl
    · exact Or.inl ⟨e, he, hk, rfl⟩
    · exact Or.inr (Or.inl rfl)
    · exact Or.inr (Or.inr rfl)
  unstructured x hx d hd hk hr := by
    obtain ⟨n, heq, hn⟩ := (hproperties x hx).enums _ hr
    rw [← (String.append_right_inj _).1 heq] at hn
    rw [hg.kind_of_role_enum hd hn] at hk
    exact absurd hk (by decide)
  alternatives := halternatives

theorem flat_objectComponent (hg : g.Lawful) {description : Option String} {ms : List Member} :
    Flat g (objectComponent g rules description ms) :=
  .of_properties hg (fun _ hx => flatProperty_of_mem_properties hx) fun _ h => nomatch h

theorem flat_component (hg : g.Lawful) {f : Fragment} (hf : component? g rules d = some f) :
    Flat g f := by
  unfold component? at hf
  cases hb : d.body with
  | scalar => rw [hb] at hf; cases hf
  | «enum» vs =>
      rw [hb] at hf
      cases hf
      exact .of_properties hg (fun _ h => nomatch h) fun _ h => nomatch h
  | union ms =>
      rw [hb] at hf
      cases hf
      refine .of_properties hg (fun _ h => nomatch h) fun f' hf' => ?_
      obtain ⟨n, -, rfl⟩ := List.mem_map.1 hf'
      exact ⟨n, rfl⟩
  | object is fs =>
      rw [hb] at hf
      cases hf
      exact flat_objectComponent hg
  | interface is fs =>
      rw [hb] at hf
      cases hf
      exact .of_properties hg (fun _ hx => flatProperty_of_mem_properties hx) fun _ h => nomatch h
  | input fs =>
      rw [hb] at hf
      cases hf
      exact flat_objectComponent hg

namespace Conversion

variable {options : Options} {source : String} {c : Conversion}

/-- The components of a document are flat, whatever cycles the types of its source have. -/
theorem components_flat (hg : TypeGraph.ofSource? source.toList = some g)
    (hc : convert? options source = some c) : ∀ x ∈ c.document.components, Flat g x.2 := by
  intro x hx
  rw [components_document hg hc] at hx
  obtain ⟨d, -, -, hf, -⟩ := mem_components_iff.1 hx
  exact flat_component (TypeGraph.lawful_of_ofSource? hg) hf

/-- Types that refer to each other and to themselves, in every way they can. -/
def recursive : String :=
  "type Query \x7b node: Node \x7d enum Shade \x7b LIGHT DARK \x7d union Any = Node " ++
  "type Node \x7b self: Node! peers: [Node!]! any: Any shades: [[Shade!]!] @deprecated \x7d " ++
  "input Filter \x7b not: Filter shade: Shade \x7d"

theorem recursive_node_flat : ∃ g c, TypeGraph.ofSource? recursive.toList = some g ∧
    convert? {} recursive = some c ∧ ∃ f, ("Node", f) ∈ c.document.components ∧
      ∃ f', ("shades", f') ∈ f.properties ∧ f'.IsChain ∧ f'.references ≠ [] ∧
        ∀ n ∈ ["Node", "Any", "Filter"], componentPrefix ++ n ∉ f'.references := by
  obtain ⟨g, hg, hkinds, ⟨_, f⟩, hf, rfl, ⟨_, f'⟩, hf', rfl, hrefs⟩ := exists_graph recursive
    (fun g => (∀ n ∈ ["Node", "Any", "Filter"], ∃ d ∈ g.types, d.name = n ∧
        d.body.kind ∈ [.object, .interface, .input, .union]) ∧
      ∃ x ∈ (ofGraph {} recursive g).document.components, x.1 = "Node" ∧
        ∃ y ∈ x.2.properties, y.1 = "shades" ∧ y.2.references ≠ [])
    (by decide +kernel)
  have hc := convert?_of_ofSource? {} hg
  have hflat := components_flat hg hc _ hf
  refine ⟨g, _, hg, hc, f, hf, f', hf', hflat.chains _ hf', hrefs, ?_⟩
  intro n hn
  obtain ⟨d, hd, rfl, hk⟩ := hkinds n hn
  exact hflat.unstructured _ hf' d hd hk

/-- A field of a type that describes schemas. -/
def introspective : String :=
  "type Query \x7b type: Type \x7d type Type \x7b kind: __TypeKind \x7d"

/-- A property refers to an enum that the source does not declare. -/
theorem introspective_refers_to_undeclared : ∃ g c,
    TypeGraph.ofSource? introspective.toList = some g ∧ convert? {} introspective = some c ∧
    ∃ d ∈ g.types, d.body.kind = .object ∧ ∃ f, (d.name, f) ∈ c.document.components ∧
      ∃ x ∈ f.properties, ∃ r ∈ x.2.references,
        ¬ ∃ e ∈ g.types, e.body.kind = .enum ∧ r = componentPrefix ++ e.name := by
  obtain ⟨g, hg, d, hd, hk, ⟨_, f⟩, hf, rfl, hx⟩ := exists_graph introspective
    (fun g => ∃ d ∈ g.types, d.body.kind = .object ∧
      ∃ y ∈ (ofGraph {} introspective g).document.components, y.1 = d.name ∧
        ∃ x ∈ y.2.properties, ∃ r ∈ x.2.references,
          ¬ ∃ e ∈ g.types, e.body.kind = .enum ∧ r = componentPrefix ++ e.name)
    (by decide +kernel)
  exact ⟨g, _, hg, convert?_of_ofSource? {} hg, d, hd, hk, f, hf, hx⟩

end Conversion

end GraphRest
