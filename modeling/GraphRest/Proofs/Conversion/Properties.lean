import GraphRest.Proofs.Conversion.ComponentReferences
import GraphRest.Proofs.Conversion.Finished

/-!
# Properties of components

The members of a type that its component keeps, the keys they are stored under and what stands there.
Two members share a key only where the identifier of one is spelled like the name of the other.
-/

namespace GraphRest

open Sdl

/-! ## Members -/

/-- Whether the component of a type keeps a member: it drops the lists of structured types. -/
def Member.isRetained (g : TypeGraph) (m : Member) : Bool :=
  !((g.role m.type.innermost).isStructured && m.type.isList)

def retained (g : TypeGraph) (ms : List Member) : List Member := ms.filter (·.isRetained g)

/-- The key of a member: its name, with `Id` behind it if the member is of a structured type. -/
def propertyKey (g : TypeGraph) (m : Member) : String :=
  if (g.role m.type.innermost).isStructured then m.name ++ "Id" else m.name

/-- What stands at the key of a member. -/
def propertyFragment (g : TypeGraph) (rules : InflectionRules) (m : Member) : Fragment :=
  if (g.role m.type.innermost).isStructured then identifierFragment rules m
  else embeddedFragment g m

/-- A single member of a structured type and a member of another type that is named like its
identifier. -/
structure Clash (g : TypeGraph) (m m' : Member) : Prop where
  structured : (g.role m.type.innermost).isStructured = true
  single : m.type.isList = false
  embedded : (g.role m'.type.innermost).isStructured = false
  named : m'.name = m.name ++ "Id"

variable {g : TypeGraph} {rules : InflectionRules} {d : TypeDefinition} {m m' : Member}
  {ms : List Member}

theorem mem_retained_iff : m ∈ retained g ms ↔ m ∈ ms ∧ m.isRetained g = true := List.mem_filter

theorem isRetained_of_single (h : m.type.isList = false) : m.isRetained g = true := by
  simp [Member.isRetained, h]

theorem isRetained_of_embedded (h : (g.role m.type.innermost).isStructured = false) :
    m.isRetained g = true := by
  simp [Member.isRetained, h]

theorem distinct_members (hg : g.Lawful) (hd : d ∈ g.types) :
    (d.body.members.map Member.name).Nodup := by
  have h := hg.distinct_members d (List.mem_append_left _ hd)
  unfold Body.members
  cases hb : d.body with
  | object is fs => rw [hb] at h; simpa [Member.ofField, Function.comp_def] using h.2
  | interface is fs => rw [hb] at h; simpa [Member.ofField, Function.comp_def] using h.2
  | input fs => rw [hb, Body.Distinct] at h; simpa [Member.ofInput, Function.comp_def] using h
  | _ => exact List.nodup_nil

/-! ## Keys -/

theorem property?_eq : property? g rules m =
    if m.isRetained g then some (propertyKey g m, propertyFragment g rules m) else none := by
  rw [property?, Member.isRetained, propertyKey, propertyFragment, identifierKey]
  cases (g.role m.type.innermost).isStructured <;> cases m.type.isList <;> rfl

theorem filterMap_property? : ms.filterMap (property? g rules) =
    (retained g ms).map fun m => (propertyKey g m, propertyFragment g rules m) := by
  induction ms with
  | nil => rfl
  | cons m ms ih =>
      cases h : m.isRetained g <;> simp [retained, property?_eq, h] at ih ⊢ <;> exact ih

theorem filterMap_requiredKey? : ms.filterMap (requiredKey? g rules) =
    ((retained g ms).filter (·.type.isNonNull)).map (propertyKey g) := by
  induction ms with
  | nil => rfl
  | cons m ms ih =>
      cases h : m.isRetained g <;> cases hn : m.type.isNonNull <;>
        simp [retained, requiredKey?, property?_eq, h, hn] at ih ⊢ <;> exact ih

theorem Clash.key_eq (h : Clash g m m') : propertyKey g m = propertyKey g m' := by
  rw [propertyKey, propertyKey, h.structured, h.embedded, h.named]
  rfl

/-- Members of different names that are kept have one key just if they clash. -/
theorem propertyKey_eq_iff (hm : m.isRetained g = true) (hm' : m'.isRetained g = true)
    (hn : m.name ≠ m'.name) :
    propertyKey g m = propertyKey g m' ↔ Clash g m m' ∨ Clash g m' m := by
  constructor
  · intro h
    rw [propertyKey, propertyKey] at h
    rw [Member.isRetained] at hm hm'
    cases hs : (g.role m.type.innermost).isStructured <;>
      cases hs' : (g.role m'.type.innermost).isStructured <;>
      simp only [hs, hs', Bool.false_and, Bool.true_and, Bool.not_eq_true', Bool.false_eq_true,
        if_false, if_true] at h hm hm'
    -- Keys of one kind are as different as the names, so that only mixed pairs can clash.
    · exact absurd h hn
    · exact Or.inr ⟨hs', hm', hs, h⟩
    · exact Or.inl ⟨hs, hm, hs', h.symm⟩
    · exact absurd ((String.append_left_inj _).1 h) hn
  · rintro (h | h)
    · exact h.key_eq
    · exact h.key_eq.symm

theorem nodup_keys_iff (hms : (ms.map Member.name).Nodup) :
    ((retained g ms).map (propertyKey g)).Nodup ↔ ∀ m ∈ ms, ∀ m' ∈ ms, ¬ Clash g m m' := by
  have hretained : ((retained g ms).map Member.name).Nodup :=
    hms.sublist (List.filter_sublist.map _)
  rw [List.nodup_map_iff_inj_on hretained.of_map]
  constructor
  · intro h m hm m' hm' hclash
    have heq : m = m' := h m (mem_retained_iff.2 ⟨hm, isRetained_of_single hclash.single⟩) m'
      (mem_retained_iff.2 ⟨hm', isRetained_of_embedded hclash.embedded⟩) hclash.key_eq
    have hs := hclash.structured
    rw [heq, hclash.embedded] at hs
    cases hs
  · intro h m hm m' hm' hkey
    by_contra hne
    have hname : m.name ≠ m'.name := fun hn => hne (List.inj_on_of_nodup_map hretained hm hm' hn)
    obtain ⟨hm, hr⟩ := mem_retained_iff.1 hm
    obtain ⟨hm', hr'⟩ := mem_retained_iff.1 hm'
    rcases (propertyKey_eq_iff hr hr' hname).1 hkey with hclash | hclash
    · exact h m hm m' hm' hclash
    · exact h m' hm' m hm hclash

/-! ## Properties and required keys -/

/-- What a component holds on the members of its type. Every key has one property, in the order in
which members first have it, and the last member with the key decides on what it holds. -/
structure Represents (g : TypeGraph) (rules : InflectionRules) (ms : List Member) (f : Fragment) :
    Prop where
  keys : OrderedMap.keys f.properties = ((retained g ms).map (propertyKey g)).eraseDups
  last : ∀ key m, IsLast (fun m => propertyKey g m = key) (retained g ms) m →
    OrderedMap.get? key f.properties = some (propertyFragment g rules m)
  required : f.required = ((retained g ms).filter (·.type.isNonNull)).map (propertyKey g)
  /-- Every member that is kept has a property of its own just if none of them clash. -/
  faithful : f.properties =
    ((retained g ms).map fun m => (propertyKey g m, propertyFragment g rules m)) ↔
      ∀ m ∈ ms, ∀ m' ∈ ms, ¬ Clash g m m'
  /-- No key is required twice just if no members clash that are never null. -/
  nodup_required : f.required.Nodup ↔ ∀ m ∈ ms, ∀ m' ∈ ms,
    m.type.isNonNull = true → m'.type.isNonNull = true → ¬ Clash g m m'

theorem keys_filterMap_property? : OrderedMap.keys (ms.filterMap (property? g rules)) =
    (retained g ms).map (propertyKey g) := by
  rw [filterMap_property?, OrderedMap.keys, List.map_map]
  rfl

theorem keys_properties : (properties g rules ms).keys =
    ((retained g ms).map (propertyKey g)).eraseDups := by
  rw [properties, OrderedMap.keys_ofList, keys_filterMap_property?]

theorem get?_properties {key : String}
    (h : IsLast (fun m => propertyKey g m = key) (retained g ms) m) :
    (properties g rules ms).get? key = some (propertyFragment g rules m) := by
  rw [properties, filterMap_property?]
  exact OrderedMap.get?_ofList (h.map fun _ => Iff.rfl)

theorem properties_eq_iff (hms : (ms.map Member.name).Nodup) : properties g rules ms =
    ((retained g ms).map fun m => (propertyKey g m, propertyFragment g rules m)) ↔
      ∀ m ∈ ms, ∀ m' ∈ ms, ¬ Clash g m m' := by
  have hkeys : OrderedMap.keys (ms.filterMap (property? g rules)) =
      (retained g ms).map (propertyKey g) := keys_filterMap_property?
  rw [← nodup_keys_iff hms, ← filterMap_property?, ← hkeys]
  constructor
  · intro h
    rw [← h]
    exact OrderedMap.nodup_keys_ofList _
  · exact OrderedMap.ofList_of_nodup

theorem nodup_requiredKeys_iff (hms : (ms.map Member.name).Nodup) :
    (((retained g ms).filter (·.type.isNonNull)).map (propertyKey g)).Nodup ↔ ∀ m ∈ ms, ∀ m' ∈ ms,
      m.type.isNonNull = true → m'.type.isNonNull = true → ¬ Clash g m m' := by
  have hcomm : (retained g ms).filter (·.type.isNonNull) =
      retained g (ms.filter (·.type.isNonNull)) := by
    rw [retained, retained, List.filter_filter, List.filter_filter]
    exact List.filter_congr fun m _ => Bool.and_comm _ _
  rw [hcomm, nodup_keys_iff (hms.sublist (List.filter_sublist.map _))]
  constructor
  · intro h m hm m' hm' hn hn'
    exact h m (List.mem_filter.2 ⟨hm, hn⟩) m' (List.mem_filter.2 ⟨hm', hn'⟩)
  · intro h m hm m' hm'
    obtain ⟨hm, hn⟩ := List.mem_filter.1 hm
    obtain ⟨hm', hn'⟩ := List.mem_filter.1 hm'
    exact h m hm m' hm' hn hn'

theorem represents_objectComponent {description : Option String}
    (hms : (ms.map Member.name).Nodup) :
    Represents g rules ms (objectComponent g rules description ms) where
  keys := keys_properties
  last _ _ h := get?_properties h
  required := filterMap_requiredKey?
  faithful := properties_eq_iff hms
  nodup_required := by
    have hrequired : (objectComponent g rules description ms).required =
        ((retained g ms).filter (·.type.isNonNull)).map (propertyKey g) := filterMap_requiredKey?
    rw [hrequired]
    exact nodup_requiredKeys_iff hms

theorem Represents.mem_keys_iff {f : Fragment} (h : Represents g rules ms f) {key : String} :
    key ∈ OrderedMap.keys f.properties ↔ ∃ m ∈ retained g ms, propertyKey g m = key := by
  rw [h.keys, List.mem_eraseDups, List.mem_map]

theorem Represents.mem_required_iff {f : Fragment} (h : Represents g rules ms f) {key : String} :
    key ∈ f.required ↔ ∃ m ∈ retained g ms, m.type.isNonNull = true ∧ propertyKey g m = key := by
  rw [h.required, List.mem_map]
  simp only [List.mem_filter, and_assoc]

/-! ## Components of a document -/

theorem component?_of_kind (hk : d.body.kind = .object ∨ d.body.kind = .input) :
    component? g rules d = some (objectComponent g rules d.description d.body.members) := by
  unfold component? Body.members
  cases hb : d.body <;> simp [hb, Body.kind] at hk ⊢

namespace Conversion

variable {options : Options} {source : String} {c : Conversion}

theorem get?_components_iff (hg : TypeGraph.ofSource? source.toList = some g)
    (hc : convert? options source = some c) (hd : d ∈ g.types) {f : Fragment} :
    c.document.components.get? d.name = some f ↔
      isExposed g d = true ∧ component? g options.inflection d = some f := by
  have hlawful := TypeGraph.lawful_of_ofSource? hg
  rw [components_document hg hc, OrderedMap.get?_eq_some_iff_mem (nodup_components hlawful _),
    mem_components_iff]
  constructor
  · rintro ⟨d', hd', hx, hf, hn⟩
    obtain rfl := hlawful.eq_of_type_name_eq hd' hd hn
    exact ⟨hx, hf⟩
  · rintro ⟨hx, hf⟩
    exact ⟨d, hd, hx, hf, rfl⟩

/-- Of the members that the component of an object or input type keeps two have one key just if they
clash. It has one property for each key, and requires the keys of those that are never null. -/
theorem properties_of_members (hg : TypeGraph.ofSource? source.toList = some g)
    (hc : convert? options source = some c) (hd : d ∈ g.types)
    (hk : d.body.kind = .object ∨ d.body.kind = .input) :
    (∀ m ∈ retained g d.body.members, ∀ m' ∈ retained g d.body.members, m ≠ m' →
      (propertyKey g m = propertyKey g m' ↔ Clash g m m' ∨ Clash g m' m)) ∧
    (isExposed g d = true → ∃ f, c.document.components.get? d.name = some f ∧
      Represents g options.inflection d.body.members f) := by
  have hms := distinct_members (TypeGraph.lawful_of_ofSource? hg) hd
  constructor
  · intro m hm m' hm' hne
    obtain ⟨hm, hr⟩ := mem_retained_iff.1 hm
    obtain ⟨hm', hr'⟩ := mem_retained_iff.1 hm'
    exact propertyKey_eq_iff hr hr' fun hn => hne (List.inj_on_of_nodup_map hms hm hm' hn)
  · intro hx
    exact ⟨_, (get?_components_iff hg hc hd).2 ⟨hx, component?_of_kind hk⟩,
      represents_objectComponent hms⟩

/-- A reference and the identifier it goes by, both of them fields of one type. -/
def authored : String :=
  "type Query \x7b post: Post \x7d " ++
  "type Post \x7b author: User! authorId: ID! comments: [Post] \x7d type User \x7b id: ID! \x7d"

theorem authored_post_requires : ∃ g c, TypeGraph.ofSource? authored.toList = some g ∧
    convert? {} authored = some c ∧ ∃ f, c.document.components.get? "Post" = some f ∧
      OrderedMap.keys f.properties = ["authorId"] ∧ f.required = ["authorId", "authorId"] := by
  obtain ⟨g, hg, d, hd, hn, hk, hx, hkeys, hrequired⟩ := exists_graph authored
    (fun g => ∃ d ∈ g.types, d.name = "Post" ∧ d.body.kind = .object ∧ isExposed g d = true ∧
      ((retained g d.body.members).map (propertyKey g)).eraseDups = ["authorId"] ∧
      ((retained g d.body.members).filter (·.type.isNonNull)).map (propertyKey g) =
        ["authorId", "authorId"])
    (by decide +kernel)
  have hc := convert?_of_ofSource? {} hg
  obtain ⟨f, hf, hrep⟩ := (properties_of_members hg hc hd (Or.inl hk)).2 hx
  exact ⟨g, _, hg, hc, f, hn ▸ hf, hrep.keys.trans hkeys, hrep.required.trans hrequired⟩

/-- Two members that are kept have one key, so that the component has fewer properties than members
are kept, and requires a key twice. -/
theorem authored_keys_collide : ∃ g c, TypeGraph.ofSource? authored.toList = some g ∧
    convert? {} authored = some c ∧ ∃ d ∈ g.types, d.body.kind = .object ∧
      (∃ m ∈ retained g d.body.members, ∃ m' ∈ retained g d.body.members,
        m.name ≠ m'.name ∧ propertyKey g m = propertyKey g m') ∧
      ∃ f, c.document.components.get? d.name = some f ∧
        f.properties.length < (retained g d.body.members).length ∧ ¬ f.required.Nodup := by
  obtain ⟨g, hg, d, hd, hk, hkeys, hf⟩ := exists_graph authored
    (fun g => ∃ d ∈ g.types, d.body.kind = .object ∧
      (∃ m ∈ retained g d.body.members, ∃ m' ∈ retained g d.body.members,
        m.name ≠ m'.name ∧ propertyKey g m = propertyKey g m') ∧
      ((ofGraph {} authored g).document.components.get? d.name).any (fun f =>
        decide (f.properties.length < (retained g d.body.members).length ∧ ¬ f.required.Nodup)) =
          true)
    (by decide +kernel)
  obtain ⟨f, hf, hlost⟩ := (Option.any_eq_true _ _).1 hf
  exact ⟨g, _, hg, convert?_of_ofSource? {} hg, d, hd, hk, hkeys, f, hf, of_decide_eq_true hlost⟩

end Conversion

end GraphRest
