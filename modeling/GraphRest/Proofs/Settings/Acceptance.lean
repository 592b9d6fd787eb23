import GraphRest.Proofs.Yaml.Records
import GraphRest.Settings.Schema

/-!
# What keeps to a schema

The shape of a value that keeps to a schema, and the schema that governs a part of it, along the fields of records
and the definitions that are referred to. A check decides for a given value.
-/

namespace GraphRest.ValueSchema

open Yaml (Described)

variable {definitions : List (String × ValueSchema)} {s s' t : ValueSchema} {d x : Datum}
  {name : String} {path : List String} {entries : List (String × Datum)}

/-! ## Shapes -/

theorem isOf_record_iff : d.isOf .record = true ↔ ∃ entries, d = .fields entries := by
  cases d <;> simp [Datum.isOf]

theorem isOf_list_iff : d.isOf .list = true ↔ ∃ items, d = .list items := by
  cases d <;> simp [Datum.isOf]

theorem isOf_boolean_iff : d.isOf .boolean = true ↔ ∃ b, d = .bool b := by
  cases d <;> simp [Datum.isOf]

theorem isOf_null_iff : d.isOf .null = true ↔ d = .null := by
  cases d <;> simp [Datum.isOf]

/-- Besides texts there are single characters, which no YAML text describes. -/
theorem isOf_string_iff (hd : Described d) : d.isOf .string = true ↔ ∃ w, d = .text w := by
  cases hd <;> simp [Datum.isOf]

namespace Accepts

theorem of_definition (h : Accepts definitions s d) (hs : s.definition = some name)
    (hdef : definitions.lookup name = some s') : Accepts definitions s' d := by
  cases h with
  | intro _ definition => exact definition name s' hs hdef

theorem of_property (h : Accepts definitions s (.fields entries)) (hx : (name, x) ∈ entries)
    (hs : s.properties.lookup name = some s') : Accepts definitions s' x := by
  cases h with
  | intro _ _ _ _ _ property => exact property entries name x s' rfl hx hs

theorem of_anyField (h : Accepts definitions s (.fields entries)) (hx : (name, x) ∈ entries)
    (hnone : s.properties.lookup name = none) (hs : s.anyField = some s') :
    Accepts definitions s' x := by
  cases h with
  | intro _ _ _ _ _ _ other => exact other entries name x s' rfl hx hnone hs

theorem of_item {items : List Datum} (h : Accepts definitions s (.list items))
    (hs : s.items = some s') (hx : x ∈ items) : Accepts definitions s' x := by
  cases h with
  | intro _ _ _ _ item => exact item s' items hs rfl x hx

theorem exists_type (h : Accepts definitions s d) (hs : s.types ≠ []) :
    ∃ t ∈ s.types, d.isOf t = true := by
  cases h with
  | intro _ _ type => exact type.resolve_left hs

theorem exists_word (h : Accepts definitions s d) (hs : s.words ≠ []) : ∃ w ∈ s.words, d = .text w := by
  cases h with
  | intro _ _ _ word => exact word.resolve_left hs

theorem isOf_of_types {t : ValueType} (h : Accepts definitions s d) (hs : s.types = [t]) :
    d.isOf t = true := by
  obtain ⟨t', ht, hd⟩ := h.exists_type (by simp [hs])
  rw [hs, List.mem_singleton] at ht
  exact ht ▸ hd

theorem exists_fields (h : Accepts definitions s d) (hs : s.types = [.record]) :
    ∃ entries, d = .fields entries := isOf_record_iff.1 (h.isOf_of_types hs)

end Accepts

/-! ## Paths -/

/-- Under a schema, what stands at a path is governed by another one: that of the property there, behind the
definitions that are referred to on the way. -/
inductive Governs (definitions : List (String × ValueSchema)) :
    ValueSchema → List String → ValueSchema → Prop
  | here (s : ValueSchema) : Governs definitions s [] s
  | definition {s s' t : ValueSchema} {name : String} {path : List String}
      (hs : s.definition = some name) (hdef : definitions.lookup name = some s')
      (h : Governs definitions s' path t) : Governs definitions s path t
  | property {s s' t : ValueSchema} {name : String} {path : List String}
      (hrecord : s.types = [.record]) (hs : s.properties.lookup name = some s')
      (h : Governs definitions s' path t) : Governs definitions s (name :: path) t
  | anyField {s s' t : ValueSchema} {name : String} {path : List String}
      (hrecord : s.types = [.record]) (hnone : s.properties.lookup name = none)
      (hs : s.anyField = some s') (h : Governs definitions s' path t) :
      Governs definitions s (name :: path) t

/-- What stands at a path keeps to the schema there. -/
theorem Governs.accepts (h : Governs definitions s path t) (hd : Accepts definitions s d)
    (hx : d.at? path = some x) : Accepts definitions t x := by
  induction h generalizing d with
  | here s =>
      cases hx
      exact hd
  | definition hs hdef _ ih => exact ih (hd.of_definition hs hdef) hx
  | property hrecord hs _ ih =>
      obtain ⟨entries, rfl⟩ := hd.exists_fields hrecord
      obtain ⟨d', hd', hx⟩ := Option.bind_eq_some_iff.1 hx
      exact ih (hd.of_property (SortedMap.mem_of_lookup hd') hs) hx
  | anyField hrecord hnone hs _ ih =>
      obtain ⟨entries, rfl⟩ := hd.exists_fields hrecord
      obtain ⟨d', hd', hx⟩ := Option.bind_eq_some_iff.1 hx
      exact ih (hd.of_anyField (SortedMap.mem_of_lookup hd') hnone hs) hx

/-- A schema that says nothing on parts of records, neither itself nor by a definition. -/
structure IsLeaf (s : ValueSchema) : Prop where
  definition : s.definition = none
  properties : s.properties = []
  anyField : s.anyField = none

theorem Governs.of_leaf (h : Governs definitions s path t) (hs : s.IsLeaf) : path = [] ∧ t = s := by
  cases h with
  | here => exact ⟨rfl, rfl⟩
  | definition hdef => cases hs.definition.symm.trans hdef
  | property _ hprop =>
      rw [hs.properties] at hprop
      cases hprop
  | anyField _ _ hany => cases hs.anyField.symm.trans hany

/-- Below a record there are its properties. -/
theorem Governs.of_record (h : Governs definitions s path t) (ht : t.IsLeaf) (hdef : s.definition = none)
    (hprops : s.properties ≠ []) (hany : s.anyField = none) :
    ∃ name s' rest, path = name :: rest ∧ (name, s') ∈ s.properties ∧
      Governs definitions s' rest t := by
  cases h with
  | here => exact absurd ht.properties hprops
  | definition hd => cases hdef.symm.trans hd
  | property _ hprop h => exact ⟨_, _, _, rfl, SortedMap.mem_of_lookup hprop, h⟩
  | anyField _ _ ha => cases hany.symm.trans ha

theorem Governs.of_defined (h : Governs definitions s path t) (ht : t.IsLeaf)
    (hdef : s.definition = some name) (hprops : s.properties = []) (hany : s.anyField = none)
    (hs' : definitions.lookup name = some s') : Governs definitions s' path t := by
  cases h with
  | here => cases hdef.symm.trans ht.definition
  | definition hd hlookup h =>
      cases hdef.symm.trans hd
      cases hs'.symm.trans hlookup
      exact h
  | property _ hprop =>
      rw [hprops] at hprop
      cases hprop
  | anyField _ _ ha => cases hany.symm.trans ha

/-- Below a record of fields under any names there is what they keep to. -/
theorem Governs.of_table (h : Governs definitions s path t) (ht : t.IsLeaf) (hdef : s.definition = none)
    (hprops : s.properties = []) (hany : s.anyField = some s') :
    ∃ name rest, path = name :: rest ∧ Governs definitions s' rest t := by
  cases h with
  | here => cases hany.symm.trans ht.anyField
  | definition hd => cases hdef.symm.trans hd
  | property _ hprop =>
      rw [hprops] at hprop
      cases hprop
  | anyField _ _ ha h =>
      cases hany.symm.trans ha
      exact ⟨_, _, rfl, h⟩

/-! ## Checking -/

/-- Whether a value is seen to keep to a schema. The fuel bounds the routes through fields, items and
definitions. -/
def checks (definitions : List (String × ValueSchema)) : Nat → ValueSchema → Datum → Bool
  | 0, _, _ => false
  | fuel + 1, s, d =>
      (match s.definition with
        | some name => (definitions.lookup name).any fun s' => checks definitions fuel s' d
        | none => true) &&
      (s.types.isEmpty || s.types.any d.isOf) &&
      match d with
      | .text w => s.words.isEmpty || s.words.contains w
      | .list items => s.words.isEmpty && s.items.all fun s' => items.all (checks definitions fuel s')
      | .fields entries => s.words.isEmpty && entries.all fun (name, x) =>
          ((s.properties.lookup name).or s.anyField).all fun s' => checks definitions fuel s' x
      | _ => s.words.isEmpty

theorem accepts_of_checks {fuel : Nat} (h : checks definitions fuel s d = true) :
    Accepts definitions s d := by
  induction fuel generalizing s d with
  | zero => cases h
  | succ fuel ih =>
      simp only [checks, Bool.and_eq_true] at h
      obtain ⟨⟨hdef, htype⟩, hshape⟩ := h
      have hdefined : ∀ name, s.definition = some name →
          ∃ s', definitions.lookup name = some s' ∧ checks definitions fuel s' d = true := by
        intro name hname
        rw [hname] at hdef
        exact (Option.any_eq_true _ _).1 hdef
      refine .intro ?_ ?_ ?_ ?_ ?_ ?_ ?_
      · intro name hname
        obtain ⟨s', hs', -⟩ := hdefined name hname
        exact ⟨s', hs'⟩
      · intro name s' hname hs'
        obtain ⟨s'', hs'', hchecks⟩ := hdefined name hname
        cases hs'.symm.trans hs''
        exact ih hchecks
      · simpa using htype
      · cases d with
        | text w => simpa [or_iff_not_imp_left] using hshape
        | list items => exact Or.inl (by simpa using (Bool.and_eq_true_iff.1 hshape).1)
        | fields entries => exact Or.inl (by simpa using (Bool.and_eq_true_iff.1 hshape).1)
        | _ => exact Or.inl (by simpa using hshape)
      · rintro s' items hs' rfl x hx
        have hall := (Bool.and_eq_true_iff.1 hshape).2
        rw [hs', Option.all_some] at hall
        exact ih (List.all_eq_true.1 hall x hx)
      · rintro entries name x s' rfl hx hs'
        have hentry := List.all_eq_true.1 (Bool.and_eq_true_iff.1 hshape).2 _ hx
        rw [hs', Option.some_or, Option.all_some] at hentry
        exact ih hentry
      · rintro entries name x s' rfl hx hnone hs'
        have hentry := List.all_eq_true.1 (Bool.and_eq_true_iff.1 hshape).2 _ hx
        rw [hnone, hs', Option.none_or, Option.all_some] at hentry
        exact ih hentry

end GraphRest.ValueSchema
