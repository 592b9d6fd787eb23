import GraphRest.Conversion.Component
import GraphRest.Proofs.Conversion.Mapping
import GraphRest.Proofs.Conversion.Notices
import GraphRest.Proofs.Data.OrderedMap
import GraphRest.Proofs.Sdl.Names

/-!
# References of components

Which types have a component, what components embed, and what they refer to: a union to its members, a
structured type to the enums of its fields.
-/

namespace GraphRest

open Sdl

/-! ## Notices -/

theorem Notice.skeleton_note (key : String) (f : Fragment) (n : Notice) :
    (note key f n).skeleton = f.skeleton := by
  rw [note_eq]
  rfl

/-- Whatever is noted on a fragment, it embeds and lists the same. -/
theorem Notice.skeleton_noteAll (key : String) (ns : List Notice) (f : Fragment) :
    (noteAll key ns f).skeleton = f.skeleton := by
  unfold noteAll
  induction ns generalizing f with
  | nil => rfl
  | cons n ns ih => rw [List.foldl_cons, ih, skeleton_note]

variable {g : TypeGraph} {rules : InflectionRules} {d : TypeDefinition} {n r : String}

/-! ## Names of components -/

theorem component?_eq_none_iff : component? g rules d = none ↔ d.body.kind = .scalar := by
  unfold component?
  cases d.body <;> simp [Body.kind]

theorem mem_components_iff {f : Fragment} : (n, f) ∈ components g rules ↔
    ∃ d ∈ g.types, isExposed g d = true ∧ component? g rules d = some f ∧ d.name = n := by
  rw [components, List.mem_filterMap]
  constructor
  · rintro ⟨d, hd, hx⟩
    obtain ⟨f', hf, heq⟩ := Option.map_eq_some_iff.1 hx
    cases heq
    obtain ⟨hd, he⟩ := List.mem_filter.1 hd
    exact ⟨d, hd, he, hf, rfl⟩
  · rintro ⟨d, hd, he, hf, rfl⟩
    exact ⟨d, List.mem_filter.2 ⟨hd, he⟩, by rw [hf]; rfl⟩

theorem names_of_components (ds : List TypeDefinition) :
    (ds.filterMap fun d => (component? g rules d).map (d.name, ·)).map Prod.fst =
      (ds.filter fun d => d.body.kind ≠ .scalar).map TypeDefinition.name := by
  induction ds with
  | nil => rfl
  | cons d ds ih =>
      cases hd : component? g rules d with
      | none =>
          have hkind := component?_eq_none_iff.1 hd
          rw [List.filterMap_cons_none (by rw [hd]; rfl), ih,
            List.filter_cons_of_neg (by simpa using hkind)]
      | some f =>
          have hkind : d.body.kind ≠ .scalar := by
            intro hk
            rw [component?_eq_none_iff.2 hk] at hd
            cases hd
          rw [List.filterMap_cons_some (by rw [hd]; rfl), List.map_cons, ih,
            List.filter_cons_of_pos (by simpa using hkind), List.map_cons]

/-- Components go by the names of the exposed types that are no scalars, in the order of these. -/
theorem keys_components : OrderedMap.keys (components g rules) =
    (g.types.filter fun d => isExposed g d && d.body.kind ≠ .scalar).map TypeDefinition.name := by
  rw [OrderedMap.keys, components, names_of_components, List.filter_filter]
  simp only [Bool.and_comm]

theorem mem_keys_components_iff : n ∈ OrderedMap.keys (components g rules) ↔
    ∃ d ∈ g.types, isExposed g d = true ∧ d.body.kind ≠ .scalar ∧ d.name = n := by
  simp [keys_components, and_assoc]

theorem nodup_components (hg : g.Lawful) (rules : InflectionRules) :
    (OrderedMap.keys (components g rules)).Nodup := by
  rw [keys_components]
  exact hg.nodup_types.sublist (List.filter_sublist.map _)

/-- The types with a component are those that are referred to. -/
theorem mem_keys_components_iff_isReferenced (hg : g.Lawful) (hr : isReservedName n = false) :
    n ∈ OrderedMap.keys (components g rules) ↔ (g.role n).isReferenced = true := by
  rw [mem_keys_components_iff, TypeGraph.isReferenced_iff]
  constructor
  · rintro ⟨d, hd, he, hk, rfl⟩
    have hroot : g.roots.contains d.name = false := by
      simpa [isExposed, hr] using he
    exact ⟨hg.scalarFragment?_name hd, hroot, d,
      hg.type?_eq_some_iff.2 ⟨List.mem_append_left _ hd, rfl⟩, hk⟩
  · rintro ⟨-, hroot, d, hd, hk⟩
    obtain rfl := (hg.type?_eq_some_iff.1 hd).2
    exact ⟨d, hg.mem_types hd hr hk, by simp [isExposed, hr, hroot], hk, rfl⟩

/-! ## Properties -/

theorem skeleton_embeddedFragment (g : TypeGraph) (m : Member) :
    (embeddedFragment g m).skeleton = (g.fragment m.type).skeleton := by
  rw [embeddedFragment, Notice.skeleton_noteAll]
  cases nonEmpty m.description <;> rfl

theorem parts_embeddedFragment (g : TypeGraph) (m : Member) :
    (embeddedFragment g m).parts = (g.fragment m.type).parts := by
  rw [← Fragment.parts_skeleton, skeleton_embeddedFragment, Fragment.parts_skeleton]

theorem references_embeddedFragment (g : TypeGraph) (m : Member) :
    (embeddedFragment g m).references = (g.fragment m.type).references := by
  rw [← Fragment.references_skeleton, skeleton_embeddedFragment, Fragment.references_skeleton]

theorem references_property {m : Member} {x : String × Fragment}
    (hx : property? g rules m = some x) (h : r ∈ x.2.references) :
    r ∈ (g.fragment m.type).references := by
  unfold property? at hx
  split at hx
  · cases hx
    rwa [references_embeddedFragment] at h
  · split at hx
    · cases hx
    · cases hx
      rw [identifierFragment, Fragment.references_described] at h
      cases h

/-! ## What components embed -/

/-- The members that the component of a type is made of. -/
def Sdl.Body.members : Body → List Member
  | .object _ fields => fields.map Member.ofField
  | .interface _ fields => fields.map Member.ofField
  | .input fields => fields.map Member.ofInput
  | _ => []

theorem Sdl.Body.innermost_mem_namedTypes {b : Body} {m : Member} (hm : m ∈ b.members) :
    m.type.innermost ∈ b.namedTypes := by
  cases b with
  | object is fs =>
      obtain ⟨f, hf, rfl⟩ := List.mem_map.1 hm
      exact List.mem_append_right _ (List.mem_flatMap.2 ⟨f, hf, List.mem_cons_self⟩)
  | interface is fs =>
      obtain ⟨f, hf, rfl⟩ := List.mem_map.1 hm
      exact List.mem_append_right _ (List.mem_flatMap.2 ⟨f, hf, List.mem_cons_self⟩)
  | input fs =>
      obtain ⟨v, hv, rfl⟩ := List.mem_map.1 hm
      exact List.mem_map_of_mem (f := fun v : InputValue => v.type.innermost) hv
  | _ => cases hm

theorem parts_objectComponent (description : Option String) (ms : List Member) :
    (objectComponent g rules description ms).parts = (properties g rules ms).map Prod.snd := by
  simp [objectComponent, Fragment.object, Fragment.ofType, Fragment.parts]

/-- A component embeds references to the members of its union or the properties of its members. -/
theorem parts_component {f : Fragment} (hf : component? g rules d = some f) :
    f.parts = match d.body with
      | .union ms => ms.map Fragment.referTo
      | b => (properties g rules b.members).map Prod.snd := by
  unfold component? at hf
  cases hb : d.body with
  | scalar => rw [hb] at hf; cases hf
  | «enum» _ => rw [hb] at hf; cases hf; rfl
  | union _ => rw [hb] at hf; cases hf; rfl
  | object _ _ => rw [hb] at hf; cases hf; exact parts_objectComponent _ _
  | interface _ fs =>
      rw [hb] at hf
      cases hf
      exact parts_objectComponent d.description (fs.map Member.ofField)
  | input _ => rw [hb] at hf; cases hf; exact parts_objectComponent _ _

/-- A component itself refers to nothing and sets no bounds. -/
theorem own_component {f : Fragment} (hf : component? g rules d = some f) :
    f.reference = none ∧ f.ownBounds = [] := by
  unfold component? at hf
  cases hb : d.body with
  | scalar => rw [hb] at hf; cases hf
  | _ => rw [hb] at hf; cases hf; exact ⟨rfl, rfl⟩

/-! ## What components refer to -/

/-- A component refers to a member of its union or to what a type is mapped to that it names. -/
theorem references_component {f : Fragment} (hf : component? g rules d = some f)
    (h : r ∈ f.references) :
    (∃ ms, d.body = .union ms ∧ ∃ m ∈ ms, r = Fragment.componentPrefix ++ m) ∨
      ∃ n ∈ d.body.namedTypes, r ∈ (g.namedFragment n).references := by
  rw [Fragment.references_eq, (own_component hf).1, Option.toList_none, List.append_nil] at h
  obtain ⟨p, hp, h⟩ := List.mem_flatMap.1 h
  have hmembers (hp : p ∈ (properties g rules d.body.members).map Prod.snd) :
      ∃ n ∈ d.body.namedTypes, r ∈ (g.namedFragment n).references := by
    obtain ⟨x, hx, rfl⟩ := List.mem_map.1 hp
    obtain ⟨m, hm, hx⟩ := List.mem_filterMap.1 (OrderedMap.mem_of_mem_ofList hx)
    have h := references_property hx h
    rw [TypeGraph.references_fragment] at h
    exact ⟨_, Body.innermost_mem_namedTypes hm, h⟩
  rw [parts_component hf] at hp
  cases hb : d.body with
  | union ms =>
      rw [hb] at hp
      obtain ⟨m, hm, rfl⟩ := List.mem_map.1 hp
      rw [Fragment.references_referTo] at h
      exact Or.inl ⟨ms, rfl, m, hm, List.mem_singleton.1 h⟩
  | _ =>
      rw [hb] at hp hmembers
      exact Or.inr (hmembers hp)

end GraphRest
