import GraphRest.Conversion.TypeRole
import Mathlib.Data.List.Nodup
import Mathlib.Tactic.Tauto

/-!
# What the type graph of an accepted source holds

A source is accepted if its definitions are well formed. The type graph made of them keeps distinct names
for types and their members, and all of its names are names of the language; extensions change neither.
-/

namespace GraphRest.Sdl

/-! ## Lists with distinct keys -/

theorem find?_key_eq_some_iff {α : Type} {key : α → String} {xs : List α} (h : (xs.map key).Nodup)
    {n : String} {x : α} : xs.find? (fun y => decide (key y = n)) = some x ↔ x ∈ xs ∧ key x = n := by
  constructor
  · intro hx
    exact ⟨List.mem_of_find?_eq_some hx, by simpa using List.find?_some hx⟩
  · rintro ⟨hx, rfl⟩
    cases hf : xs.find? (fun y => decide (key y = key x)) with
    | none =>
        have := List.find?_eq_none.1 hf x hx
        simp at this
    | some y =>
        have hy : key y = key x := by simpa using List.find?_some hf
        rw [List.inj_on_of_nodup_map h (List.mem_of_find?_eq_some hf) hx hy]

/-! ## Extensions -/

theorem TypeDefinition.name_extend (d e : TypeDefinition) : (d.extend e).name = d.name := by
  unfold TypeDefinition.extend
  split <;> rfl

theorem Body.kind_append (b b' : Body) : (b.append b').kind = b.kind := by
  cases b <;> cases b' <;> rfl

theorem TypeDefinition.kind_extend (d e : TypeDefinition) :
    (d.extend e).body.kind = d.body.kind := by
  unfold TypeDefinition.extend
  split
  · exact Body.kind_append _ _
  · rfl

theorem Body.mem_names_append {b b' : Body} {n : String} (h : n ∈ (b.append b').names) :
    n ∈ b.names ∨ n ∈ b'.names := by
  cases b <;> cases b' <;> simp only [Body.append, Body.names, List.flatMap_append, List.mem_append]
    at h ⊢ <;> tauto

theorem TypeDefinition.mem_names_extend {d e : TypeDefinition} {n : String}
    (h : n ∈ (d.extend e).body.names) : n ∈ d.body.names ∨ n ∈ e.body.names := by
  unfold TypeDefinition.extend at h
  split at h
  · exact Body.mem_names_append h
  · exact Or.inl h

theorem TypeDefinition.foldl_extend_keeps (es : List TypeDefinition) :
    ∀ d : TypeDefinition, (es.foldl TypeDefinition.extend d).name = d.name ∧
      (es.foldl TypeDefinition.extend d).body.kind = d.body.kind := by
  induction es with
  | nil => exact fun _ => ⟨rfl, rfl⟩
  | cons e es ih =>
      intro d
      obtain ⟨hname, hkind⟩ := ih (d.extend e)
      exact ⟨hname.trans (name_extend d e), hkind.trans (kind_extend d e)⟩

theorem TypeDefinition.name_extended (ds : List Definition) (d : TypeDefinition) :
    (d.extended ds).name = d.name :=
  (foldl_extend_keeps _ d).1

theorem TypeDefinition.kind_extended (ds : List Definition) (d : TypeDefinition) :
    (d.extended ds).body.kind = d.body.kind :=
  (foldl_extend_keeps _ d).2

theorem TypeDefinition.mem_names_foldl_extend {n : String} (es : List TypeDefinition) :
    ∀ d : TypeDefinition, n ∈ (es.foldl TypeDefinition.extend d).body.names →
      n ∈ d.body.names ∨ ∃ e ∈ es, n ∈ e.body.names := by
  induction es with
  | nil => exact fun _ h => Or.inl h
  | cons e es ih =>
      intro d h
      rcases ih _ h with h | ⟨e', he', h⟩
      · rcases mem_names_extend h with h | h
        · exact Or.inl h
        · exact Or.inr ⟨e, List.mem_cons_self, h⟩
      · exact Or.inr ⟨e', List.mem_cons_of_mem _ he', h⟩

theorem TypeDefinition.mem_names_extended {ds : List Definition} {d : TypeDefinition} {n : String}
    (h : n ∈ (d.extended ds).body.names) :
    n ∈ d.body.names ∨ ∃ e ∈ typeExtensions ds, n ∈ e.body.names := by
  rcases mem_names_foldl_extend _ _ h with h | ⟨e, he, h⟩
  · exact Or.inl h
  · exact Or.inr ⟨e, (List.mem_filter.1 he).1, h⟩

/-! ## Lawful graphs -/

namespace TypeGraph

/-- All types of a graph, the declared ones first. -/
def allTypes (g : TypeGraph) : List TypeDefinition := g.types ++ g.builtIn

/-- What holds of the type graph of a well-formed source. -/
structure Lawful (g : TypeGraph) : Prop where
  distinct_types : (g.allTypes.map TypeDefinition.name).Nodup
  distinct_members : ∀ d ∈ g.allTypes, d.body.Distinct
  legal_names : ∀ d ∈ g.allTypes, ∀ n ∈ d.name :: d.body.names, isName n = true
  builtIn_kinds : g.builtIn.map (fun d => (d.name, d.body.kind)) =
    BuiltIn.types.map fun d => (d.name, d.body.kind)

theorem builtIn_legal :
    ∀ d ∈ BuiltIn.types, ∀ n ∈ d.name :: d.body.names, isName n = true := by
  decide +kernel

theorem allTypes_ofDefinitions (ds : List Definition) :
    (ofDefinitions ds).allTypes = (declaredTypes ds ++ BuiltIn.types).map (·.extended ds) := by
  simp [allTypes, ofDefinitions]

theorem map_name_extended (ds : List Definition) (xs : List TypeDefinition) :
    (xs.map (·.extended ds)).map TypeDefinition.name = xs.map TypeDefinition.name := by
  simp [TypeDefinition.name_extended]

theorem legal_extended {ds : List Definition} (h : WellFormed ds) :
    ∀ d ∈ declaredTypes ds ++ BuiltIn.types,
      ∀ n ∈ d.name :: (d.extended ds).body.names, isName n = true := by
  intro d hd n hn
  have own : ∀ n ∈ d.name :: d.body.names, isName n = true := by
    rcases List.mem_append.1 hd with hd | hd
    · obtain ⟨def', hdef, heq⟩ := List.mem_filterMap.1 hd
      cases def' <;> cases heq
      exact h.legal_names _ hdef
    · exact builtIn_legal d hd
  rcases List.mem_cons.1 hn with rfl | hn
  · exact own _ List.mem_cons_self
  · rcases TypeDefinition.mem_names_extended hn with hn | ⟨e, he, hn⟩
    · exact own n (List.mem_cons_of_mem _ hn)
    · obtain ⟨def', hdef, heq⟩ := List.mem_filterMap.1 he
      cases def' <;> cases heq
      exact h.legal_names _ hdef n (List.mem_cons_of_mem _ hn)

theorem lawful_ofDefinitions {ds : List Definition} (h : WellFormed ds) :
    (ofDefinitions ds).Lawful := by
  constructor
  · rw [allTypes_ofDefinitions, map_name_extended]
    exact h.distinct_types
  · rw [allTypes_ofDefinitions]
    intro d hd
    obtain ⟨d', hd', rfl⟩ := List.mem_map.1 hd
    exact h.distinct_members d' hd'
  · rw [allTypes_ofDefinitions]
    intro d hd
    obtain ⟨d', hd', rfl⟩ := List.mem_map.1 hd
    rw [TypeDefinition.name_extended]
    exact legal_extended h d' hd'
  · simp [ofDefinitions, TypeDefinition.name_extended, TypeDefinition.kind_extended]

/-- The type graph of an accepted source is lawful. -/
theorem lawful_of_ofSource? {source : List Char} {g : TypeGraph} (h : ofSource? source = some g) :
    g.Lawful := by
  simp only [ofSource?, Option.bind_eq_bind, Option.bind_eq_some_iff] at h
  obtain ⟨_, _, ds, _, h⟩ := h
  split at h
  · rename_i hwf
    cases h
    exact lawful_ofDefinitions hwf
  · cases h

/-! ## Looking types and fields up -/

variable {g : TypeGraph} {n : String}

theorem Lawful.type?_eq_some_iff (h : g.Lawful) {d : TypeDefinition} :
    g.type? n = some d ↔ d ∈ g.allTypes ∧ d.name = n :=
  find?_key_eq_some_iff h.distinct_types

theorem objectFields?_eq_some_iff {fs : List Field} :
    g.objectFields? n = some fs ↔ ∃ d is, g.type? n = some d ∧ d.body = .object is fs := by
  rw [objectFields?, Option.bind_eq_some_iff]
  constructor
  · rintro ⟨d, hd, h⟩
    split at h
    · rename_i is fields hb
      cases h
      exact ⟨d, is, hd, hb⟩
    · cases h
  · rintro ⟨d, is, hd, hb⟩
    exact ⟨d, hd, by rw [hb]⟩

theorem Lawful.objectFields? (h : g.Lawful) {fs : List Field} (hf : g.objectFields? n = some fs) :
    (fs.map Field.name).Nodup ∧ ∀ f ∈ fs, ∀ m ∈ f.names, isName m = true := by
  obtain ⟨d, is, hd, hb⟩ := objectFields?_eq_some_iff.1 hf
  have hmem := (h.type?_eq_some_iff.1 hd).1
  constructor
  · have := h.distinct_members d hmem
    rw [hb] at this
    exact this.2
  · intro f hf m hm
    refine h.legal_names d hmem m (List.mem_cons_of_mem _ ?_)
    rw [hb]
    exact List.mem_append_right _ (List.mem_flatMap.2 ⟨f, hf, hm⟩)

theorem Lawful.rootFields (h : g.Lawful) (root : Option String) :
    (((g.rootFields root).getD []).map Field.name).Nodup ∧
      ∀ f ∈ (g.rootFields root).getD [], ∀ m ∈ f.names, isName m = true := by
  cases hr : g.rootFields root with
  | none => simp
  | some fs =>
      obtain ⟨n, -, hn⟩ := Option.bind_eq_some_iff.1 hr
      exact h.objectFields? hn

theorem Lawful.eq_of_name_eq (h : g.Lawful) {root : Option String} {f f' : Field}
    (hf : f ∈ (g.rootFields root).getD []) (hf' : f' ∈ (g.rootFields root).getD [])
    (hn : f.name = f'.name) : f = f' :=
  List.inj_on_of_nodup_map (h.rootFields root).1 hf hf' hn

/-! ## Declared types -/

theorem Lawful.nodup_types (h : g.Lawful) : (g.types.map TypeDefinition.name).Nodup := by
  have hall := h.distinct_types
  rw [allTypes, List.map_append] at hall
  exact (List.nodup_append.1 hall).1

theorem Lawful.eq_of_type_name_eq (h : g.Lawful) {d d' : TypeDefinition} (hd : d ∈ g.types)
    (hd' : d' ∈ g.types) (hn : d.name = d'.name) : d = d' :=
  List.inj_on_of_nodup_map h.nodup_types hd hd' hn

theorem builtIn_reserved_or_scalar :
    ∀ x ∈ BuiltIn.types.map (fun d => (d.name, d.body.kind)),
      isReservedName x.1 = true ∨ x.2 = .scalar := by
  decide +kernel

/-- A type that is no scalar is declared, unless its name is reserved. -/
theorem Lawful.mem_types (h : g.Lawful) {d : TypeDefinition} (hd : g.type? n = some d)
    (hr : isReservedName n = false) (hk : d.body.kind ≠ .scalar) : d ∈ g.types := by
  obtain ⟨hmem, hname⟩ := h.type?_eq_some_iff.1 hd
  rcases List.mem_append.1 hmem with hmem | hmem
  · exact hmem
  · have hkinds := List.mem_map_of_mem (f := fun d => (d.name, d.body.kind)) hmem
    rw [h.builtIn_kinds] at hkinds
    rcases builtIn_reserved_or_scalar _ hkinds with hres | hscalar
    · rw [hname, hr] at hres
      cases hres
    · exact absurd hscalar hk

theorem Lawful.names_builtIn (h : g.Lawful) :
    g.builtIn.map TypeDefinition.name = BuiltIn.types.map TypeDefinition.name := by
  have hfst := congrArg (List.map Prod.fst) h.builtIn_kinds
  rwa [List.map_map, List.map_map] at hfst

/-- No declared type takes the name of a built-in one. -/
theorem Lawful.name_not_mem_builtIn (h : g.Lawful) {d : TypeDefinition} (hd : d ∈ g.types) :
    d.name ∉ BuiltIn.types.map TypeDefinition.name := by
  intro hname
  have hdistinct := h.distinct_types
  rw [allTypes, List.map_append, List.nodup_append, h.names_builtIn] at hdistinct
  exact hdistinct.2.2 _ (List.mem_map_of_mem hd) _ hname rfl

/-- No declared type takes the name of a scalar of the language. -/
theorem Lawful.scalarFragment?_name (h : g.Lawful) {d : TypeDefinition} (hd : d ∈ g.types) :
    scalarFragment? d.name = none := by
  cases hs : scalarFragment? d.name with
  | none => rfl
  | some f =>
      refine absurd ?_ (h.name_not_mem_builtIn hd)
      unfold scalarFragment? at hs
      split at hs <;> first | (rename_i hn; rw [hn]; decide +kernel) | cases hs

/-- A type that another graph knows under its name is declared there too. -/
theorem Lawful.mem_types_of_type? {g' : TypeGraph} (h : g.Lawful) (h' : g'.Lawful)
    {d : TypeDefinition} (hd : d ∈ g.types) (hd' : g'.type? d.name = some d) : d ∈ g'.types := by
  rcases List.mem_append.1 (h'.type?_eq_some_iff.1 hd').1 with hmem | hmem
  · exact hmem
  · have hname := List.mem_map_of_mem (f := TypeDefinition.name) hmem
    rw [h'.names_builtIn] at hname
    exact absurd hname (h.name_not_mem_builtIn hd)

end TypeGraph

end GraphRest.Sdl
