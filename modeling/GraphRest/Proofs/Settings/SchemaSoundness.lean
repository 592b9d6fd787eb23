import GraphRest.Proofs.Settings.Acceptance
import GraphRest.Proofs.Settings.Precedence
import GraphRest.Proofs.Settings.Success
import Mathlib.Data.Set.List

/-!
# What the schema of settings promises

A file that keeps to the schema is loaded, unless a number too wide for 64 bits stands under a name other than
those of the settings that are decoded first: everything else is kept until the options are decoded, and no such
number can be kept. What is loaded has every value that the file gives and the default for what it leaves out.
-/

namespace GraphRest

/-! ## Settings as data -/

/-- A text, or nothing. -/
def Datum.ofText? : Option String → Datum
  | some s => .text s
  | none => .null

/-- The word of a level in settings. -/
def LogLevel.settingWord (l : LogLevel) : String := Text.lowerAscii l.word

def Logging.datum (l : Logging) : Datum := .fields [
  ("level", .text l.level.settingWord),
  ("path", .ofText? l.path),
  ("rotation", .text l.rotation.word)]

def InflectionRules.datum (r : InflectionRules) : Datum := .fields [
  ("custom", .fields (r.custom.entries.map fun (ending, replacement) => (ending, .text replacement))),
  ("es_suffixes", .list (r.esSuffixes.map .text)),
  ("ies_suffix", .text r.iesSuffix),
  ("default_suffix", .text r.defaultSuffix)]

def MutationPrefixes.datum (p : MutationPrefixes) : Datum := .fields [
  ("create", .text p.create),
  ("update", .text p.update),
  ("delete", .text p.delete)]

/-- Settings as they stand in a file that gives all of them. -/
def Settings.datum (s : Settings) : Datum := .fields [
  ("schema", .ofText? s.schema),
  ("output", .text s.output),
  ("format", .text s.format.word),
  ("custom_plurals", .ofText? s.customPlurals),
  ("logging", s.logging.datum),
  ("title", .ofText? s.options.title),
  ("version", .text s.options.version),
  ("base_url", .ofText? s.options.baseUrl),
  ("path_prefix", .text s.options.pathPrefix),
  ("detect_rest_patterns", .bool s.options.detectResources),
  ("pluralization", s.options.inflection.datum),
  ("crud_prefixes", s.options.mutationPrefixes.datum)]

/-- The path of a setting: it ends where the schema says nothing on parts of a record any more. -/
def SettingsSchema.Known (path : List String) : Prop :=
  ∃ t, ValueSchema.Governs definitions settings path t ∧ t.IsLeaf

/-- Settings have at the path of every setting what is given there, and the default where nothing is. -/
def Settings.Carries (s : Settings) (d : Datum) : Prop :=
  ∀ path, SettingsSchema.Known path → s.datum.at? path = (d.at? path).or (({} : Settings).datum.at? path)

/-! ## Values that are decoded -/

open ValueSchema (Accepts Governs)
open SettingsSchema (definitions)
open Yaml (Described)

variable {α : Type} {t t' : ValueSchema} {encode : α → Datum} {decode : Datum → Option α} {d x : Datum}
  {path : List String} {name : String}

/-- What keeps to a schema is decoded. -/
def Decodes (t : ValueSchema) (decode : Datum → Option α) : Prop :=
  ∀ x, Described x → Accepts definitions t x → ∃ a, decode x = some a

/-- What keeps to a schema is the datum of what it is decoded to. -/
def Fits (t : ValueSchema) (encode : α → Datum) (decode : Datum → Option α) : Prop :=
  ∀ x, Described x → Accepts definitions t x → ∃ a, x = encode a ∧ decode x = some a

theorem Fits.decodes (h : Fits t encode decode) : Decodes t decode := by
  intro x hd hx
  obtain ⟨a, -, ha⟩ := h x hd hx
  exact ⟨a, ha⟩

/-- What is told without flags and another layer is what is given, or the default. -/
theorem Fits.eq_or_of_told {given : Option Datum} {default value : α} (h : Fits t encode decode)
    (hx : ∀ x, given = some x → Described x ∧ Accepts definitions t x)
    (htold : Told decode none none given default value) :
    some (encode value) = given.or (some (encode default)) := by
  cases given with
  | none => exact congrArg (fun v => some (encode v)) htold
  | some x =>
      obtain ⟨hd, hx⟩ := hx x rfl
      obtain ⟨a, rfl, ha⟩ := h x hd hx
      cases ha.symm.trans htold
      rfl

theorem exists_text (ht : t.types = [.string]) (hd : Described x) (hx : Accepts definitions t x) :
    ∃ w, x = .text w := (ValueSchema.isOf_string_iff hd).1 (hx.isOf_of_types ht)

theorem exists_ofText? (ht : t.types = [.string, .null]) (hd : Described x)
    (hx : Accepts definitions t x) : ∃ w?, x = .ofText? w? := by
  obtain ⟨type, htype, hx⟩ := hx.exists_type (by simp [ht])
  simp only [ht, List.mem_cons, List.not_mem_nil, or_false] at htype
  rcases htype with rfl | rfl
  · obtain ⟨w, rfl⟩ := (ValueSchema.isOf_string_iff hd).1 hx
    exact ⟨some w, rfl⟩
  · exact ⟨none, ValueSchema.isOf_null_iff.1 hx⟩

theorem fits_filePath (ht : t.types = [.string]) :
    Fits t .text (SettingDecoder.value? SettingDecoder.filePath) := by
  intro x hd hx
  obtain ⟨w, rfl⟩ := exists_text ht hd hx
  exact ⟨w, rfl, rfl⟩

theorem fits_nullable_filePath (ht : t.types = [.string, .null]) :
    Fits t .ofText? (SettingDecoder.value? (SettingDecoder.nullable SettingDecoder.filePath)) := by
  intro x hd hx
  obtain ⟨w?, rfl⟩ := exists_ofText? ht hd hx
  refine ⟨w?, rfl, ?_⟩
  cases w? <;> rfl

theorem fits_string (ht : t.types = [.string]) :
    Fits t .text (Json.Decoder.value? Json.Decoder.string) := by
  intro x hd hx
  obtain ⟨w, rfl⟩ := exists_text ht hd hx
  exact ⟨w, rfl, rfl⟩

theorem fits_optional_string (ht : t.types = [.string, .null]) :
    Fits t .ofText? (Json.Decoder.value? (Json.Decoder.optional Json.Decoder.string)) := by
  intro x hd hx
  obtain ⟨w?, rfl⟩ := exists_ofText? ht hd hx
  refine ⟨w?, rfl, ?_⟩
  cases w? <;> rfl

theorem fits_bool (ht : t.types = [.boolean]) :
    Fits t .bool (Json.Decoder.value? Json.Decoder.bool) := by
  intro x hd hx
  obtain ⟨b, rfl⟩ := ValueSchema.isOf_boolean_iff.1 (hx.isOf_of_types ht)
  exact ⟨b, rfl, rfl⟩

/-- A choice of words, each of which is read back. -/
theorem fits_words {word : α → String} (choices : List α) (hne : choices ≠ [])
    (ht : t.words = choices.map word) (h : ∀ a, decode (.text (word a)) = some a) :
    Fits t (fun a => .text (word a)) decode := by
  intro x hd hx
  obtain ⟨w, hw, rfl⟩ := hx.exists_word (by simpa [ht] using hne)
  rw [ht] at hw
  obtain ⟨a, -, rfl⟩ := List.mem_map.1 hw
  exact ⟨a, rfl, h a⟩

theorem fits_level (ht : t.words = ["trace", "debug", "info", "warn", "error"]) :
    Fits t (fun l : LogLevel => .text l.settingWord) (SettingDecoder.word? LogLevel.ofText?) := by
  have hwords : t.words = LogLevel.all.reverse.map LogLevel.settingWord := by
    rw [ht]
    decide +kernel
  exact fits_words _ (by decide) hwords fun l => by cases l <;> decide +kernel

theorem fits_rotation : Fits SettingsSchema.rotation (fun r : Rotation => .text r.word)
    (SettingDecoder.word? Rotation.ofText?) :=
  fits_words Rotation.all (by decide) rfl fun r => by cases r <;> decide +kernel

theorem fits_format : Fits SettingsSchema.outputFormat (fun f : OutputFormat => .text f.word)
    (SettingDecoder.value? SettingDecoder.outputFormat) :=
  fits_words [.yaml, .json] (by decide) rfl fun f => by cases f <;> rfl

theorem fits_list_string (ht : t.types = [.list]) (hitems : t.items = some t') (ht' : t'.types = [.string]) :
    Fits t (fun ws : List String => .list (ws.map .text))
      (Json.Decoder.value? (Json.Decoder.list Json.Decoder.string)) := by
  intro x hd hx
  obtain ⟨items, rfl⟩ := ValueSchema.isOf_list_iff.1 (hx.isOf_of_types ht)
  obtain ⟨ws, rfl⟩ : items ∈ Set.range (List.map Datum.text) := by
    rw [Set.range_list_map]
    intro y hy
    cases hd with
    | list hdescribed =>
        obtain ⟨w, rfl⟩ := exists_text ht' (hdescribed y hy) (hx.of_item hitems hy)
        exact ⟨w, rfl⟩
  exact ⟨ws, rfl, Json.Decoder.value?_list_string ws⟩

/-! ## Records that are decoded -/

section

variable {σ ε : Type} {entries : List (String × Datum)} {assignment : Datum → σ → Except ε σ}

theorem decodes_defined (ht : t.definition = some name) (hdef : definitions.lookup name = some t')
    (h : Decodes t' decode) : Decodes t decode :=
  fun x hd hx => h x hd (hx.of_definition ht hdef)

/-- The field of a name takes what keeps to the property of that name. -/
def DecodesField (t : ValueSchema) (name : String) (assignment : Datum → σ → Except ε σ) : Prop :=
  ∃ t', t.properties.lookup name = some t' ∧
    ∀ x, Described x → Accepts definitions t' x → Takes assignment x

theorem DecodesField.takes (h : DecodesField t name assignment) (hd : Described (.fields entries))
    (ht : Accepts definitions t (.fields entries)) (hx : (name, x) ∈ entries) :
    Takes assignment x := by
  obtain ⟨t', ht', htakes⟩ := h
  cases hd with
  | fields _ hdescribed => exact htakes x (hdescribed _ hx) (ht.of_property hx ht')

namespace SettingDecoder

variable {decode : SettingDecoder α} {set : α → σ → σ} {fields : List (SettingField σ)}

theorem decodesField_of (ht : t.properties.lookup name = some t') (h : Decodes t' (value? decode)) :
    DecodesField t name (SettingField.of name decode set).assign :=
  ⟨t', ht, fun x hd hx => takes_of (h x hd hx)⟩

theorem decodesField_ofWord {lookup : String → Option α} {message : String → String}
    (ht : t.properties.lookup name = some t') (h : Decodes t' (word? lookup)) :
    DecodesField t name (SettingField.ofWord name lookup message set).assign :=
  ⟨t', ht, fun x hd hx => takes_ofWord (h x hd hx)⟩

/-- Whether a record that keeps to its schema is decoded lies with what stands under other names than those of
the fields. -/
theorem exists_record_iff {wanted : String} {check : Datum → Except Refusal Unit} {s : σ}
    (h : ∀ f ∈ fields, DecodesField t f.name f.assign) (hd : Described (.fields entries))
    (ht : Accepts definitions t (.fields entries)) :
    (∃ s', record wanted fields check s (.fields entries) = .ok s') ↔
      ∀ y ∈ entries, fields.find? (·.name = y.1) = none → check y.2 = .ok () := by
  refine exists_assignEntries_iff fun y hy f hf => ?_
  have hname : f.name = y.1 := by simpa using List.find?_some hf
  exact (h f (List.mem_of_find?_eq_some hf)).takes hd ht (by rwa [hname])

end SettingDecoder

namespace Json.Decoder

variable {decode : Decoder α} {set : α → σ → σ} {fields : List (RecordField σ)}

theorem decodesField_of (ht : t.properties.lookup name = some t') (h : Decodes t' (value? decode)) :
    DecodesField t name (assign (.of name decode set)) :=
  ⟨t', ht, fun x hd hx => takes_of (h x hd hx)⟩

theorem decodes_record {wanted : String} {s : σ} (ht : t.types = [.record])
    (h : ∀ f ∈ fields, DecodesField t f.name (assign f)) : Decodes t (value? (record wanted fields s)) := by
  intro x hd hx
  obtain ⟨entries, rfl⟩ := hx.exists_fields ht
  refine exists_record hd.lawful.nodup fun y hy f hf => ?_
  have hname : f.name = y.1 := by simpa using List.find?_some hf
  exact (h f (List.mem_of_find?_eq_some hf)).takes hd hx (by rwa [hname])

theorem decodes_suffixTable (ht : t.types = [.record]) (hprops : t.properties = [])
    (hany : t.anyField = some t') (ht' : t'.types = [.string]) : Decodes t (value? suffixTable) := by
  intro x hd hx
  obtain ⟨entries, rfl⟩ := hx.exists_fields ht
  refine exists_suffixTable fun y hy => ?_
  cases hd with
  | fields _ hdescribed =>
      have hnone : t.properties.lookup y.1 = none := by simp [hprops]
      exact exists_text ht' (hdescribed y hy) (hx.of_anyField hy hnone hany)

end Json.Decoder

end

/-! ## Settings that are decoded -/

namespace SettingsSchema

open SettingDecoder in
theorem decodes_logging : Decodes logging (value? Logging.ofDatum) := by
  intro x hd hx
  obtain ⟨entries, rfl⟩ := hx.exists_fields rfl
  have hfields : ∀ f ∈ Logging.settingFields, DecodesField logging f.name f.assign := by
    simp only [Logging.settingFields, List.forall_mem_cons]
    refine ⟨decodesField_ofWord rfl ?_, decodesField_of rfl ?_, decodesField_ofWord rfl ?_, by simp⟩
    · exact (fits_level rfl).decodes
    · exact (fits_nullable_filePath rfl).decodes
    · exact decodes_defined rfl rfl fits_rotation.decodes
  have hpassed : ∀ y ∈ entries, Logging.settingFields.find? (·.name = y.1) = none → pass y.2 = .ok () :=
    fun _ _ _ => rfl
  obtain ⟨l, hl⟩ := (exists_record_iff hfields hd hx).2 hpassed
  exact ⟨l, value?_eq_some_iff.2 hl⟩

section

open Json.Decoder

theorem decodes_inflection : Decodes inflection (value? InflectionRules.ofJson) := by
  refine decodes_record rfl ?_
  simp only [InflectionRules.jsonFields, List.forall_mem_cons]
  refine ⟨decodesField_of rfl ?_, decodesField_of rfl ?_, decodesField_of rfl ?_, decodesField_of rfl ?_,
    by simp⟩
  · exact decodes_suffixTable rfl rfl rfl rfl
  · exact (fits_list_string rfl rfl rfl).decodes
  · exact (fits_string rfl).decodes
  · exact (fits_string rfl).decodes

theorem decodes_prefixes : Decodes prefixes (value? MutationPrefixes.ofJson) := by
  refine decodes_record rfl ?_
  simp only [MutationPrefixes.jsonFields, List.forall_mem_cons]
  exact ⟨decodesField_of rfl (fits_string rfl).decodes, decodesField_of rfl (fits_string rfl).decodes,
    decodesField_of rfl (fits_string rfl).decodes, by simp⟩

/-- The options in settings are decoded, whatever stands beside them. -/
theorem decodes_options : Decodes settings (value? Options.ofJson) := by
  refine decodes_record rfl ?_
  simp only [Options.jsonFields, List.forall_mem_cons]
  refine ⟨decodesField_of rfl ?_, decodesField_of rfl ?_, decodesField_of rfl ?_, decodesField_of rfl ?_,
    decodesField_of rfl ?_, decodesField_of rfl ?_, decodesField_of rfl ?_, by simp⟩
  · exact (fits_optional_string rfl).decodes
  · exact (fits_string rfl).decodes
  · exact (fits_optional_string rfl).decodes
  · exact (fits_string rfl).decodes
  · exact (fits_bool rfl).decodes
  · exact decodes_defined rfl rfl decodes_inflection
  · exact decodes_defined rfl rfl decodes_prefixes

end

open SettingDecoder in
theorem decodesField_ownFields : ∀ f ∈ Settings.ownFields, DecodesField settings f.name f.assign := by
  simp only [Settings.ownFields, List.forall_mem_cons]
  refine ⟨decodesField_of rfl ?_, decodesField_of rfl ?_, decodesField_of rfl ?_, decodesField_of rfl ?_,
    decodesField_of rfl ?_, by simp⟩
  · exact (fits_nullable_filePath rfl).decodes
  · exact (fits_filePath rfl).decodes
  · exact decodes_defined rfl rfl fits_format.decodes
  · exact (fits_nullable_filePath rfl).decodes
  · exact decodes_defined rfl rfl decodes_logging

/-! ## Settings and their paths -/

open ValueSchema (describe record)

variable {s : Settings}

/-- The settings of logging, with what the schema says on them. -/
theorem governs_logging (h : Governs definitions logging path t) (ht : t.IsLeaf) :
    path = ["level"] ∧ t.words = ["trace", "debug", "info", "warn", "error"] ∨
      path = ["path"] ∧ t.types = [.string, .null] ∨ path = ["rotation"] ∧ t = rotation := by
  obtain ⟨name, s', rest, rfl, hmem, h⟩ := h.of_record ht rfl (List.cons_ne_nil _ _) rfl
  simp only [logging, describe, record, List.mem_cons, List.not_mem_nil, or_false, Prod.mk.injEq] at hmem
  rcases hmem with ⟨rfl, rfl⟩ | ⟨rfl, rfl⟩ | ⟨rfl, rfl⟩
  · obtain ⟨rfl, rfl⟩ := h.of_leaf ⟨rfl, rfl, rfl⟩
    exact .inl ⟨rfl, rfl⟩
  · obtain ⟨rfl, rfl⟩ := h.of_leaf ⟨rfl, rfl, rfl⟩
    exact .inr (.inl ⟨rfl, rfl⟩)
  · obtain ⟨rfl, rfl⟩ := (h.of_defined ht rfl rfl rfl rfl).of_leaf ⟨rfl, rfl, rfl⟩
    exact .inr (.inr ⟨rfl, rfl⟩)

/-- The settings of inflection, with what the schema says on them. -/
theorem governs_inflection (h : Governs definitions inflection path t) (ht : t.IsLeaf) :
    (∃ key, path = ["custom", key] ∧ t = .text) ∨
      path = ["es_suffixes"] ∧ t.types = [.list] ∧ t.items = some .text ∨
        (path = ["default_suffix"] ∨ path = ["ies_suffix"]) ∧ t.types = [.string] := by
  obtain ⟨name, s', rest, rfl, hmem, h⟩ := h.of_record ht rfl (List.cons_ne_nil _ _) rfl
  simp only [inflection, describe, record, List.mem_cons, List.not_mem_nil, or_false, Prod.mk.injEq] at hmem
  rcases hmem with ⟨rfl, rfl⟩ | ⟨rfl, rfl⟩ | ⟨rfl, rfl⟩ | ⟨rfl, rfl⟩
  · obtain ⟨key, rest, rfl, htext⟩ := h.of_table ht rfl rfl rfl
    obtain ⟨rfl, rfl⟩ := htext.of_leaf ⟨rfl, rfl, rfl⟩
    exact .inl ⟨key, rfl, rfl⟩
  · obtain ⟨rfl, rfl⟩ := h.of_leaf ⟨rfl, rfl, rfl⟩
    exact .inr (.inr ⟨.inl rfl, rfl⟩)
  · obtain ⟨rfl, rfl⟩ := h.of_leaf ⟨rfl, rfl, rfl⟩
    exact .inr (.inl ⟨rfl, rfl, rfl⟩)
  · obtain ⟨rfl, rfl⟩ := h.of_leaf ⟨rfl, rfl, rfl⟩
    exact .inr (.inr ⟨.inr rfl, rfl⟩)

/-- The prefixes, with what the schema says on them. -/
theorem governs_prefixes (h : Governs definitions prefixes path t) (ht : t.IsLeaf) :
    (path = ["create"] ∨ path = ["delete"] ∨ path = ["update"]) ∧ t.types = [.string] := by
  obtain ⟨name, s', rest, rfl, hmem, h⟩ := h.of_record ht rfl (List.cons_ne_nil _ _) rfl
  simp only [prefixes, describe, record, List.mem_cons, List.not_mem_nil, or_false, Prod.mk.injEq] at hmem
  rcases hmem with ⟨rfl, rfl⟩ | ⟨rfl, rfl⟩ | ⟨rfl, rfl⟩
  · obtain ⟨rfl, rfl⟩ := h.of_leaf ⟨rfl, rfl, rfl⟩
    exact ⟨.inl rfl, rfl⟩
  · obtain ⟨rfl, rfl⟩ := h.of_leaf ⟨rfl, rfl, rfl⟩
    exact ⟨.inr (.inl rfl), rfl⟩
  · obtain ⟨rfl, rfl⟩ := h.of_leaf ⟨rfl, rfl, rfl⟩
    exact ⟨.inr (.inr rfl), rfl⟩

/-- A table has under each key the text that is given there. -/
theorem map_eq_of_told {given : Option Datum} {value : Option String} (ht : t.types = [.string])
    (hx : ∀ x, given = some x → Described x ∧ ValueSchema.Accepts definitions t x)
    (h : Told (fun d => (Json.Decoder.value? Json.Decoder.string d).map some) none none given none value) :
    value.map .text = given := by
  cases given with
  | none =>
      cases h
      rfl
  | some x =>
      obtain ⟨hd, hx⟩ := hx x rfl
      obtain ⟨w, rfl⟩ := exists_text ht hd hx
      cases h
      rfl

theorem lookup_map_text (table : List (String × String)) (key : String) :
    (table.map fun (ending, replacement) => (ending, Datum.text replacement)).lookup key =
      (table.lookup key).map .text := by
  induction table with
  | nil => rfl
  | cons x table ih =>
      rw [List.map_cons, List.lookup_cons, List.lookup_cons, ih]
      cases key == x.1 <;> rfl

theorem at?_custom (s : Settings) (key : String) :
    s.datum.at? ["pluralization", "custom", key] =
      (s.options.inflection.custom.get? key).map .text := by
  have hat : s.datum.at? ["pluralization", "custom", key] =
      ((s.options.inflection.custom.entries.map fun (ending, replacement) =>
        (ending, Datum.text replacement)).lookup key).bind (Datum.at? []) := rfl
  rw [hat, lookup_map_text, SortedMap.lookup_entries]
  cases s.options.inflection.custom.get? key <;> rfl

open Command.Arguments (Precedence)

/-- Settings that are told without flags and environment carry what the file gives. -/
theorem carries_of_precedence (hd : Described d) (h : SettingsSchema.Accepts d)
    (hp : Precedence {} (.fields []) d s) : s.Carries d := by
  rintro path ⟨t, hgoverns, ht⟩
  have hx : ∀ x, d.at? path = some x → Described x ∧ ValueSchema.Accepts definitions t x :=
    fun x hx => ⟨Described.passesOn.of_at? hd hx, hgoverns.accepts h hx⟩
  obtain ⟨name, s', rest, rfl, hmem, hgoverns⟩ := hgoverns.of_record ht rfl (List.cons_ne_nil _ _) rfl
  simp only [settings, properties, describe, record, List.mem_cons, List.not_mem_nil, or_false,
    Prod.mk.injEq] at hmem
  -- One case for each property, in byte order of the names; the sections split into theirs.
  rcases hmem with ⟨rfl, rfl⟩ | ⟨rfl, rfl⟩ | ⟨rfl, rfl⟩ | ⟨rfl, rfl⟩ | ⟨rfl, rfl⟩ | ⟨rfl, rfl⟩ |
    ⟨rfl, rfl⟩ | ⟨rfl, rfl⟩ | ⟨rfl, rfl⟩ | ⟨rfl, rfl⟩ | ⟨rfl, rfl⟩ | ⟨rfl, rfl⟩
  · obtain ⟨rfl, rfl⟩ := hgoverns.of_leaf ⟨rfl, rfl, rfl⟩
    exact (fits_optional_string rfl).eq_or_of_told hx hp.baseUrl
  · obtain ⟨rfl | rfl | rfl, htext⟩ := governs_prefixes (hgoverns.of_defined ht rfl rfl rfl rfl) ht
    · exact (fits_string htext).eq_or_of_told hx hp.createPrefix
    · exact (fits_string htext).eq_or_of_told hx hp.deletePrefix
    · exact (fits_string htext).eq_or_of_told hx hp.updatePrefix
  · obtain ⟨rfl, rfl⟩ := hgoverns.of_leaf ⟨rfl, rfl, rfl⟩
    exact (fits_nullable_filePath rfl).eq_or_of_told hx hp.customPlurals
  · obtain ⟨rfl, rfl⟩ := hgoverns.of_leaf ⟨rfl, rfl, rfl⟩
    exact (fits_bool rfl).eq_or_of_told hx hp.detectResources
  · obtain ⟨rfl, rfl⟩ := (hgoverns.of_defined ht rfl rfl rfl rfl).of_leaf ⟨rfl, rfl, rfl⟩
    exact fits_format.eq_or_of_told hx (hp.format nofun)
  · rcases governs_logging (hgoverns.of_defined ht rfl rfl rfl rfl) ht with
      ⟨rfl, hwords⟩ | ⟨rfl, htypes⟩ | ⟨rfl, rfl⟩
    · exact (fits_level hwords).eq_or_of_told hx hp.level
    · exact (fits_nullable_filePath htypes).eq_or_of_told hx hp.path
    · exact fits_rotation.eq_or_of_told hx hp.rotation
  · obtain ⟨rfl, rfl⟩ := hgoverns.of_leaf ⟨rfl, rfl, rfl⟩
    exact (fits_filePath rfl).eq_or_of_told hx hp.output
  · obtain ⟨rfl, rfl⟩ := hgoverns.of_leaf ⟨rfl, rfl, rfl⟩
    exact (fits_string rfl).eq_or_of_told hx hp.pathPrefix
  · rcases governs_inflection (hgoverns.of_defined ht rfl rfl rfl rfl) ht with
      ⟨key, rfl, rfl⟩ | ⟨rfl, htypes, hitems⟩ | ⟨rfl | rfl, htypes⟩
    · rw [at?_custom, at?_custom, map_eq_of_told rfl hx (hp.custom key)]
      exact Option.or_none.symm
    · exact (fits_list_string htypes hitems rfl).eq_or_of_told hx hp.esSuffixes
    · exact (fits_string htypes).eq_or_of_told hx hp.defaultSuffix
    · exact (fits_string htypes).eq_or_of_told hx hp.iesSuffix
  · obtain ⟨rfl, rfl⟩ := hgoverns.of_leaf ⟨rfl, rfl, rfl⟩
    exact (fits_nullable_filePath rfl).eq_or_of_told hx hp.schema
  · obtain ⟨rfl, rfl⟩ := hgoverns.of_leaf ⟨rfl, rfl, rfl⟩
    exact (fits_optional_string rfl).eq_or_of_told hx hp.title
  · obtain ⟨rfl, rfl⟩ := hgoverns.of_leaf ⟨rfl, rfl, rfl⟩
    exact (fits_string rfl).eq_or_of_told hx hp.version

end SettingsSchema

/-! ## Loading -/

theorem SettingsSchema.Accepts.hasSections (h : SettingsSchema.Accepts d) : HasSections d := by
  have hsection {path : List String} {t : ValueSchema}
      (hgoverns : Governs definitions SettingsSchema.settings path t) (ht : t.types = [.record]) :
      ∀ x, d.at? path = some x → ∃ entries, x = .fields entries :=
    fun x hx => (hgoverns.accepts h hx).exists_fields ht
  intro path hpath
  simp only [sectionPaths, List.mem_cons, List.not_mem_nil, or_false] at hpath
  rcases hpath with rfl | rfl | rfl | rfl
  · exact hsection (.property rfl rfl (.definition rfl rfl (.here _))) rfl
  · exact hsection (.property rfl rfl (.definition rfl rfl (.here _))) rfl
  · exact hsection (.property rfl rfl (.definition rfl rfl (.property rfl rfl (.here _)))) rfl
  · exact hsection (.property rfl rfl (.definition rfl rfl (.here _))) rfl

/-- A described record that is laid over nothing stays as it is. -/
theorem Yaml.Described.laidOver_empty {entries : List (String × Datum)} (h : Described (.fields entries)) :
    (Datum.fields []).laidOver (.fields entries) = .fields entries := by
  cases h with
  | fields sorted _ =>
      rw [Datum.laidOver, Datum.overEntries, List.append_nil, Datum.ofEntries,
        SortedMap.ofList_entries ⟨entries, sorted⟩]

theorem Yaml.Described.field?_eq_some_iff {entries : List (String × Datum)}
    (h : Described (.fields entries)) :
    (Datum.fields entries).field? name = some x ↔ (name, x) ∈ entries := by
  cases h with
  | fields sorted _ =>
      have hmap := SortedMap.mem_entries_iff (m := ⟨entries, sorted⟩) (k := name) (v := x)
      rw [← SortedMap.lookup_entries] at hmap
      exact hmap.symm

theorem exists_ofDatum_iff {entries : List (String × Datum)} (hd : Described (.fields entries))
    (h : SettingsSchema.Accepts (.fields entries)) :
    (∃ s, Settings.ofDatum (.fields entries) = .ok s) ↔
      ∀ y ∈ entries, y.1 ∉ ["schema", "output", "format", "custom_plurals", "logging"] →
        ∀ x : Datum, x.Inside y.2 → ¬ x.IsWide := by
  obtain ⟨o, ho⟩ := SettingsSchema.decodes_options _ hd h
  have hown : (∃ s, Settings.ofDatum (.fields entries) = .ok s) ↔
      ∃ own, SettingDecoder.record "struct Config" Settings.ownFields SettingDecoder.narrow {}
        (.fields entries) = .ok own := by
    constructor
    · rintro ⟨s, hs⟩
      obtain ⟨own, -, hown, -⟩ := Settings.ofDatum_eq_ok_iff.1 hs
      exact ⟨own, hown⟩
    · rintro ⟨own, hown⟩
      exact ⟨_, Settings.ofDatum_eq_ok_iff.2
        ⟨own, o, hown, Json.Decoder.value?_eq_some_iff.1 ho, rfl⟩⟩
  rw [hown, SettingDecoder.exists_record_iff SettingsSchema.decodesField_ownFields hd h]
  refine forall_congr' fun y => forall_congr' fun _ => ?_
  have hnames : Settings.ownFields.find? (·.name = y.1) = none ↔
      y.1 ∉ ["schema", "output", "format", "custom_plurals", "logging"] := by
    rw [List.find?_eq_none]
    simp [Settings.ownFields, eq_comm]
  rw [hnames, SettingDecoder.narrow_eq_ok_iff]

theorem carries_of_ofDatum {s : Settings} {file : SettingsFile} (hfile : Yaml.fields file.text = .ok d)
    (h : SettingsSchema.Accepts d) (hs : Settings.ofDatum d = .ok s) : s.Carries d := by
  obtain ⟨⟨entries, rfl⟩, hd⟩ := Yaml.described_fields hfile
  obtain ⟨own, o, hown, ho, rfl⟩ := Settings.ofDatum_eq_ok_iff.1 hs
  have hlower : ({ file := some file } : SettingSources).lower = .ok (.fields entries) := hfile
  have hnone : HasSections ({} : SettingSources).upper := by decide
  rw [← hd.laidOver_empty] at hown ho
  exact SettingsSchema.carries_of_precedence hd h
    (Command.Arguments.precedence_applyTo {} (Command.Arguments.layer_upper hnone)
      (Command.Arguments.layer_lower hlower h.hasSections) hown ho)

/-- A file that keeps to the schema is loaded just if no wide number stands, at any depth, under a name other than
those of the settings that are decoded first. What is loaded has every value that the file gives, and the default
for the rest. -/
theorem load_accepted {file : SettingsFile} (hfile : Yaml.fields file.text = .ok d)
    (h : SettingsSchema.Accepts d) :
    ((∃ s, ({ file := some file } : SettingSources).load = .ok s) ↔
      ∀ (name : String) (x y : Datum), d.field? name = some x →
        name ∉ ["schema", "output", "format", "custom_plurals", "logging"] → y.Inside x → ¬ y.IsWide) ∧
    ∀ s, ({ file := some file } : SettingSources).load = .ok s → s.Carries d := by
  obtain ⟨⟨entries, rfl⟩, hd⟩ := Yaml.described_fields hfile
  have hload : ({ file := some file } : SettingSources).load = Settings.ofDatum (.fields entries) := by
    have hmerged : ({ file := some file } : SettingSources).merged = .ok (.fields entries) := by
      have hlower : ({ file := some file } : SettingSources).lower = .ok (.fields entries) := hfile
      rw [SettingSources.merged, hlower]
      exact congrArg Except.ok hd.laidOver_empty
    rw [SettingSources.load, hmerged]
  rw [hload]
  refine ⟨?_, fun s hs => carries_of_ofDatum hfile h hs⟩
  rw [exists_ofDatum_iff hd h]
  simp only [hd.field?_eq_some_iff]
  constructor
  · exact fun hwide name x y hx hname => hwide (name, x) hx hname y
  · exact fun hwide y hy hname x => hwide y.1 y.2 x hy hname

/-- A file that keeps to the schema, with a number under a name that is no setting. -/
def farmFile : SettingsFile where
  name := "farm.yaml"
  text := "schema: farm.graphql\nlogging:\n  level: warn\npluralization:\n  custom:\n    ox: oxen\nextra: 7\n"

theorem farm_carried : ∃ d s, Yaml.fields farmFile.text = .ok d ∧ SettingsSchema.Accepts d ∧
    ({ file := some farmFile } : SettingSources).load = .ok s ∧ s.Carries d ∧
    s.logging.level = .warn ∧ s.output = "openapi.yaml" := by
  obtain ⟨d, hd, hchecks, hnarrow⟩ : ∃ d, Yaml.fields farmFile.text = .ok d ∧
      ValueSchema.checks definitions 5 SettingsSchema.settings d = true ∧
      SettingDecoder.narrow d = .ok () :=
    exists_eq_ok_of_any (by decide +kernel)
  have haccepts : SettingsSchema.Accepts d := ValueSchema.accepts_of_checks hchecks
  have hwide := (SettingDecoder.narrow_eq_ok_iff d).1 hnarrow
  obtain ⟨s, hs⟩ := (load_accepted hd haccepts).1.2 fun _ x y hx _ hy => hwide y (hy.of_field hx)
  obtain ⟨s', hs', hlevel⟩ : ∃ s, ({ file := some farmFile } : SettingSources).load = .ok s ∧
      s.logging.level = .warn ∧ s.output = "openapi.yaml" :=
    exists_eq_ok_of_any (by decide +kernel)
  cases hs.symm.trans hs'
  exact ⟨d, s, hd, haccepts, hs, (load_accepted hd haccepts).2 s hs, hlevel⟩

/-- A file with a number too wide for 64 bits under a name that is no setting. -/
def wideFile : SettingsFile where
  name := "wide.yaml"
  text := "extra: 18446744073709551616\n"

theorem wide_not_loaded : ∃ d, Yaml.fields wideFile.text = .ok d ∧ SettingsSchema.Accepts d ∧
    ∀ s, ({ file := some wideFile } : SettingSources).load ≠ .ok s := by
  obtain ⟨d, hd, hchecks⟩ : ∃ d, Yaml.fields wideFile.text = .ok d ∧
      ValueSchema.checks definitions 5 SettingsSchema.settings d = true :=
    exists_eq_ok_of_any (by decide +kernel)
  obtain ⟨r, hr⟩ : ∃ r, ({ file := some wideFile } : SettingSources).load = .error r :=
    exists_eq_error_of_toOption (by decide +kernel)
  exact ⟨d, hd, ValueSchema.accepts_of_checks hchecks, fun s hs => by rw [hr] at hs; cases hs⟩

end GraphRest
