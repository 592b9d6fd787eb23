import GraphRest.Proofs.Conversion.Deprecation
import GraphRest.Proofs.Conversion.Flattening

/-!
# Formats of declared scalars

The address at which a scalar is specified can stand for a format. It is noted on the property of a member
as a whole: on the text of a single value, but of a list on the array and not on the texts in it.
-/

namespace GraphRest

open Sdl

/-- The format that the declaration of a type stands for: that of the last `@specifiedBy` whose address
stands for one. -/
def Sdl.TypeDefinition.inferredFormat? (d : TypeDefinition) : Option String :=
  ((d.directives.filter (·.name = "specifiedBy")).filterMap fun u =>
    (argumentText? u "url").bind Notice.formatOfUrl?).getLast?

/-- A fragment is a text of a format, or arrays around such a text that have no format themselves. -/
def Fragment.FormatsText (f : Fragment) (format : String) : Prop :=
  ∃ text arrays, f.nodes = text :: arrays ∧ text.type = some .string ∧ text.format = some format ∧
    ∀ x ∈ arrays, x.type = some .array ∧ x.format = none

variable {g : TypeGraph} {d s : TypeDefinition} {m : Member} {format : String}

/-! ## Specifications -/

/-- The format that a specification stands for. -/
def Notice.inferred? : Notice → Option String
  | specifiedBy url => formatOfUrl? url
  | _ => none

theorem inferred?_ofDirective? (u : DirectiveUse) :
    (Notice.ofDirective? u).bind Notice.inferred? =
      if u.name = "specifiedBy" then (argumentText? u "url").bind Notice.formatOfUrl? else none := by
  unfold Notice.ofDirective?
  split
  · rename_i h
    simp [h, Notice.inferred?]
  · rename_i h
    simp [h, Notice.inferred?]
  · rename_i h
    rw [if_pos h, Option.bind_map]
    rfl
  · rename_i h
    rw [if_neg h]
    rfl

theorem specifications_of_scalar (hs : g.type? s.name = some s) (hk : s.body.kind = .scalar) :
    ((specifications g s.name).filterMap Notice.format?).getLast? = s.inferredFormat? := by
  obtain ⟨name, description, directives, body⟩ := s
  cases body with
  | scalar =>
      rw [specifications, hs]
      dsimp only
      rw [List.filterMap_filter, Notice.ofDirectives, List.filterMap_filterMap,
        TypeDefinition.inferredFormat?, List.filterMap_filter]
      congr 2
      funext u
      simp only [decide_eq_true_eq]
      rw [← inferred?_ofDirective?]
      congr 1
      funext n
      cases n <;> rfl
  | _ => cases hk

/-! ## Fragments of declared scalars -/

namespace Fragment

theorem nodes_of_isBare {f : Fragment} (hbare : f.IsBare) (hitems : f.items = none) :
    f.nodes = [f] := by
  rw [nodes_eq, parts, hbare.properties, hbare.oneOf, hitems]
  rfl

theorem nodes_array (f : Fragment) : (array f).nodes = f.nodes ++ [array f] := by
  rw [nodes_eq, parts_array, List.flatMap_singleton]

/-- An array with a format is neither the text of that format nor an array around it. -/
theorem not_formatsText_of_array {f : Fragment} (htype : f.type = some .array)
    (hformat : f.format = some format) : ¬ f.FormatsText format := by
  rintro ⟨text, arrays, hnodes, htext, -, harrays⟩
  have hf := hnodes ▸ f.mem_nodes_self
  rcases List.mem_cons.1 hf with rfl | hf
  · rw [htype] at htext
    cases htext
  · rw [(harrays f hf).2] at hformat
    cases hformat

end Fragment

namespace Sdl.TypeGraph

theorem Lawful.type?_name (hg : g.Lawful) (hs : s ∈ g.types) : g.type? s.name = some s :=
  hg.type?_eq_some_iff.2 ⟨List.mem_append_left _ hs, rfl⟩

/-- A declared scalar is a custom one, unless it is named as a root. -/
theorem Lawful.role_of_kind_scalar (hg : g.Lawful) (hs : s ∈ g.types) (hk : s.body.kind = .scalar) :
    g.role s.name = if g.roots.contains s.name then .root else .customScalar := by
  rw [role, hg.scalarFragment?_name hs, hg.type?_name hs]
  simp [hk, TypeRole.ofKind]

theorem Lawful.namedFragment_of_kind_scalar (hg : g.Lawful) (hs : s ∈ g.types)
    (hk : s.body.kind = .scalar) :
    g.namedFragment s.name = if g.roots.contains s.name then .object else .string := by
  rw [namedFragment, hg.scalarFragment?_name hs]
  dsimp only
  rw [hg.role_of_kind_scalar hs hk]
  cases g.roots.contains s.name <;> rfl

/-- A list is arrays around what its innermost type is mapped to. -/
theorem nodes_fragment (g : TypeGraph) (t : TypeRef) : ∃ arrays,
    (g.fragment t).nodes = g.namedFragment t.innermost :: arrays ∧
      ∀ x ∈ arrays, x.type = some .array ∧ x.format = none := by
  induction t with
  | named n _ =>
      refine ⟨[], ?_, nofun⟩
      exact Fragment.nodes_of_isBare (g.isBare_namedFragment n) (g.items_namedFragment n)
  | list element _ ih =>
      obtain ⟨arrays, hnodes, harrays⟩ := ih
      refine ⟨arrays ++ [.array (g.fragment element)], ?_, ?_⟩
      · rw [fragment, Fragment.nodes_array, TypeRef.innermost, hnodes, List.cons_append]
      · intro x hx
        rcases List.mem_append.1 hx with hx | hx
        · exact harrays x hx
        · rw [List.mem_singleton.1 hx]
          exact ⟨rfl, rfl⟩

end Sdl.TypeGraph

/-! ## Properties of declared scalars -/

theorem Notice.format_noteAll (key : String) (ns : List Notice) (f : Fragment) :
    (noteAll key ns f).format = (ns.filterMap format?).getLast?.or f.format :=
  foldl_eq_getLast?_or Fragment.format (fun f n => by rw [note_eq]) ns f

/-- The property of a member without directives has the format of the scalar that its type is built of. -/
theorem format_embeddedFragment (hg : g.Lawful) (hs : s ∈ g.types) (hk : s.body.kind = .scalar)
    (hformat : s.inferredFormat? = some format) (hbare : m.directives = [])
    (hinner : m.type.innermost = s.name) : (embeddedFragment g m).format = some format := by
  have hlast := specifications_of_scalar (hg.type?_name hs) hk
  simp only [embeddedFragment, Notice.format_noteAll, hbare, hinner]
  rw [show Notice.ofDirectives [] = [] from rfl, List.nil_append, hlast, hformat, Option.some_or]

/-- The nodes inside a property are those inside the fragment of its type. -/
theorem nodes_embeddedFragment (g : TypeGraph) (m : Member) : ∃ inner,
    (g.fragment m.type).nodes = inner ++ [g.fragment m.type] ∧
      (embeddedFragment g m).nodes = inner ++ [embeddedFragment g m] := by
  refine ⟨_, Fragment.nodes_eq _, ?_⟩
  rw [Fragment.nodes_eq, parts_embeddedFragment]

/-- Inside the fragment of a declared scalar, or of lists of it, no node has a format. -/
theorem Sdl.TypeGraph.Lawful.format_of_mem_nodes (hg : g.Lawful) (hs : s ∈ g.types)
    (hk : s.body.kind = .scalar) (hinner : m.type.innermost = s.name) {x : Fragment}
    (hx : x ∈ (g.fragment m.type).nodes) : x.format = none := by
  obtain ⟨arrays, hnodes, harrays⟩ := g.nodes_fragment m.type
  rw [hnodes, hinner, hg.namedFragment_of_kind_scalar hs hk] at hx
  rcases List.mem_cons.1 hx with rfl | hx
  · split <;> rfl
  · exact (harrays x hx).2

/-- The format lies on a text just if the property is no list, and the scalar stands for texts at all. -/
theorem formatsText_embeddedFragment_iff (hg : g.Lawful) (hs : s ∈ g.types)
    (hk : s.body.kind = .scalar) (hinner : m.type.innermost = s.name)
    (hformat : (embeddedFragment g m).format = some format) :
    (embeddedFragment g m).FormatsText format ↔
      m.type.isList = false ∧ g.roots.contains s.name = false := by
  obtain ⟨inner, hfragment, hnodes⟩ := nodes_embeddedFragment g m
  obtain ⟨htype, -⟩ := Fragment.skeleton_eq_iff.1 (skeleton_embeddedFragment g m)
  have hplain := hg.namedFragment_of_kind_scalar hs hk
  cases ht : m.type with
  | named n nonNull =>
      obtain rfl : n = s.name := by rw [← hinner, ht, TypeRef.innermost]
      have hone : inner = [] := by
        rw [ht, TypeGraph.fragment, Fragment.nodes_of_isBare (g.isBare_namedFragment _)
          (g.items_namedFragment _)] at hfragment
        simpa using hfragment
      rw [ht, TypeGraph.fragment, hplain] at htype
      rw [Fragment.FormatsText, hnodes, hone]
      cases hroot : g.roots.contains s.name <;>
        simp [hroot, htype, hformat, TypeRef.isList, Fragment.object, Fragment.string, Fragment.ofType]
  | list element nonNull =>
      refine iff_of_false (Fragment.not_formatsText_of_array ?_ hformat) (by simp [TypeRef.isList])
      rw [htype, ht]
      rfl

namespace Conversion

variable {options : Options} {source : String} {c : Conversion}

/-- A property whose type is built of a declared scalar has the format of the scalar on its outermost node
and nowhere inside. So the format lies on the text it is about just if the property is no list. -/
theorem specified_format_outermost (hg : TypeGraph.ofSource? source.toList = some g)
    (hc : convert? options source = some c) (hd : d ∈ g.types) (hmembers : d.body.kind.hasMembers = true)
    (hx : isExposed g d = true) (hs : s ∈ g.types) (hscalar : s.body.kind = .scalar)
    (hformat : s.inferredFormat? = some format) {key : String}
    (hm : IsLast (fun m => propertyKey g m = key) (retained g d.body.members) m)
    (hbare : m.directives = []) (hinner : m.type.innermost = s.name) :
    ∃ component p, c.document.components.get? d.name = some component ∧
      OrderedMap.get? key component.properties = some p ∧ p.format = some format ∧
      (∃ inner, p.nodes = inner ++ [p] ∧ ∀ x ∈ inner, x.format = none) ∧
      (m.type.isList = true → p.type = some .array) ∧
      (p.FormatsText format ↔ m.type.isList = false ∧ g.roots.contains s.name = false) := by
  have hlawful := TypeGraph.lawful_of_ofSource? hg
  obtain ⟨component, hcomponent, hproperties⟩ :=
    exists_component_of_hasMembers g options.inflection hmembers
  have hembedded : propertyFragment g options.inflection m = embeddedFragment g m := by
    rw [propertyFragment, hinner, hlawful.role_of_kind_scalar hs hscalar]
    cases g.roots.contains s.name <;> rfl
  have hp := format_embeddedFragment hlawful hs hscalar hformat hbare hinner
  refine ⟨component, embeddedFragment g m, (get?_components_iff hg hc hd).2 ⟨hx, hcomponent⟩,
    ?_, hp, ?_, ?_, formatsText_embeddedFragment_iff hlawful hs hscalar hinner hp⟩
  · rw [hproperties, ← hembedded]
    exact get?_properties hm
  · obtain ⟨inner, hfragment, hnodes⟩ := nodes_embeddedFragment g m
    refine ⟨inner, hnodes, fun x hx => hlawful.format_of_mem_nodes hs hscalar hinner ?_⟩
    rw [hfragment]
    exact List.mem_append_left _ hx
  · intro hlist
    obtain ⟨htype, -⟩ := Fragment.skeleton_eq_iff.1 (skeleton_embeddedFragment g m)
    rw [htype]
    cases ht : m.type with
    | named _ _ => rw [ht] at hlist; cases hlist
    | list _ _ => rfl

/-- A type with an identifier of a specified scalar, and a list of such identifiers. -/
def identified : String :=
  "type Query \x7b user: User \x7d " ++
  "scalar UUID @specifiedBy(url: \"https://tools.ietf.org/html/rfc4122\") " ++
  "type User \x7b id: UUID! ids: [UUID!] \x7d"

theorem identified_formats : ∃ g c, TypeGraph.ofSource? identified.toList = some g ∧
    convert? {} identified = some c ∧ ∃ component, c.document.components.get? "User" = some component ∧
      ∃ p, OrderedMap.get? "id" component.properties = some p ∧ p.FormatsText "uuid" := by
  obtain ⟨g, hg, s, hs, hscalar, hformat, hroot, d, hd, hn, hmembers, hx, hkey, hid⟩ :=
    exists_graph identified
      (fun g => ∃ s ∈ g.types, s.body.kind = .scalar ∧ s.inferredFormat? = some "uuid" ∧
        g.roots.contains s.name = false ∧
        ∃ d ∈ g.types, d.name = "User" ∧ d.body.kind.hasMembers = true ∧ isExposed g d = true ∧
          (∃ m ∈ retained g d.body.members, propertyKey g m = "id") ∧
          ∀ m ∈ retained g d.body.members, propertyKey g m = "id" →
            m.directives = [] ∧ m.type.innermost = s.name ∧ m.type.isList = false)
      (by decide +kernel)
  have hc := convert?_of_ofSource? {} hg
  obtain ⟨m, hm, hmkey⟩ := hkey
  obtain ⟨m, hlast⟩ := exists_isLast (P := fun m => propertyKey g m = "id") hm hmkey
  obtain ⟨hbare, hinner, hsingle⟩ := hid m hlast.mem hlast.prop
  obtain ⟨component, p, hcomponent, hp, -, -, -, htext⟩ :=
    specified_format_outermost hg hc hd hmembers hx hs hscalar hformat hlast hbare hinner
  exact ⟨g, _, hg, hc, component, hn ▸ hcomponent, p, hp, htext.2 ⟨hsingle, hroot⟩⟩

/-- The list of identifiers is an array in their format, and the texts in it have none. -/
theorem identified_list_formats : ∃ g c, TypeGraph.ofSource? identified.toList = some g ∧
    convert? {} identified = some c ∧
    ∃ s ∈ g.types, s.body.kind = .scalar ∧ s.inferredFormat? = some "uuid" ∧
      g.role s.name = .customScalar ∧
      ∃ d ∈ g.types, ∃ m ∈ retained g d.body.members,
        m.directives = [] ∧ m.type.innermost = s.name ∧
        ∃ component, c.document.components.get? d.name = some component ∧
          ∃ p, OrderedMap.get? (propertyKey g m) component.properties = some p ∧
            p.type = some .array ∧ p.format = some "uuid" ∧ ¬ p.FormatsText "uuid" := by
  obtain ⟨g, hg, s, hs, hscalar, hformat, hrole, d, hd, hx, m, hm, hbare, hinner, hproperty⟩ :=
    exists_graph identified
      (fun g => ∃ s ∈ g.types, s.body.kind = .scalar ∧ s.inferredFormat? = some "uuid" ∧
        g.role s.name = .customScalar ∧
        ∃ d ∈ g.types, isExposed g d = true ∧ ∃ m ∈ retained g d.body.members,
          m.directives = [] ∧ m.type.innermost = s.name ∧
          (component? g {} d).any (fun component =>
            (OrderedMap.get? (propertyKey g m) component.properties).any (fun p =>
              p.type = some .array ∧ p.format = some "uuid")) = true)
      (by decide +kernel)
  have hc := convert?_of_ofSource? {} hg
  obtain ⟨component, hcomponent, hp⟩ := (Option.any_eq_true _ _).1 hproperty
  obtain ⟨p, hp, hplaced⟩ := (Option.any_eq_true _ _).1 hp
  obtain ⟨harray, huuid⟩ := of_decide_eq_true hplaced
  exact ⟨g, _, hg, hc, s, hs, hscalar, hformat, hrole, d, hd, m, hm, hbare, hinner, component,
    (get?_components_iff hg hc hd).2 ⟨hx, hcomponent⟩, p, hp, harray, huuid,
    Fragment.not_formatsText_of_array harray huuid⟩

end Conversion

end GraphRest
