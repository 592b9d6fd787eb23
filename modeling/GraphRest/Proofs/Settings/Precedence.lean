import GraphRest.Command.Arguments
import GraphRest.Proofs.Settings.Decode
import GraphRest.Proofs.Settings.Environment
import GraphRest.Proofs.Yaml.Records

/-!
# Precedence of settings

The flag of an option comes before the environment, the environment before the file, and the file before
the default. Only where both layers give a record for the format of the document, the format is that of
the joined record.
-/

namespace GraphRest

open Datum

/-- What an option is by precedence: what its flag says, else what the environment gives, else what the
file gives, else its default. -/
def Told {α : Type} (decode : Datum → Option α) (flag : Option α) (upper lower : Option Datum)
    (default value : α) : Prop :=
  match flag, upper, lower with
  | some v, _, _ => value = v
  | none, some d, _ => decode d = some value
  | none, none, some d => decode d = some value
  | none, none, none => value = default

/-- The paths of the sections of settings. -/
def sectionPaths : List (List String) :=
  [["logging"], ["pluralization"], ["pluralization", "custom"], ["crud_prefixes"]]

/-- The sections of settings are records, where they are given. -/
def HasSections (d : Datum) : Prop :=
  ∀ path ∈ sectionPaths, ∀ d', d.at? path = some d' → ∃ entries, d' = .fields entries

theorem hasSections_iff {d : Datum} : HasSections d ↔
    ∀ path ∈ sectionPaths, (d.at? path).all fun d' => d' matches .fields _ := by
  refine forall_congr' fun path => forall_congr' fun _ => ?_
  cases d.at? path with
  | none => simp
  | some d' => cases d' <;> simp

instance (d : Datum) : Decidable (HasSections d) := decidable_of_iff' _ hasSections_iff

variable {α : Type} {decode : Datum → Option α} {default value : α} {u l m : Datum}
  {upper lower given : Option Datum} {path : List String} {name part : String}

theorem told_of_given (h : Given decode (upper.or lower) default value) (flag : Option α) :
    Told decode flag upper lower default (flag.getD value) := by
  cases flag with
  | some v => rfl
  | none => cases upper <;> cases lower <;> exact h

theorem told_or_of_given {decode : Datum → Option (Option α)} {default value : Option α}
    (h : Given decode (upper.or lower) default value) (flag : Option α) :
    Told decode (flag.map some) upper lower default (flag.or value) := by
  cases flag with
  | some v => rfl
  | none => cases upper <;> cases lower <;> exact h

theorem not_told_of_any [DecidableEq α] (h : (upper.any fun d => decode d = none) = true) :
    ¬ Told decode none upper lower default value := by
  cases upper with
  | none => cases h
  | some d =>
      intro htold
      have hsome : decode d = some value := htold
      have hnone : decode d = none := by simpa using h
      exact Option.some_ne_none value (hsome.symm.trans hnone)

/-! ## Layers -/

/-- A decoder that takes no records. -/
def RejectsRecords (decode : Datum → Option α) : Prop := ∀ entries, decode (.fields entries) = none

theorem laidOver_eq_or (u l : Datum) : u.laidOver l = u ∨
    ∃ upper lower, u = .fields upper ∧ l = .fields lower ∧
      ∃ entries, u.laidOver l = .fields entries := by
  cases u with
  | fields upper =>
      cases l with
      | fields lower =>
          refine Or.inr ⟨upper, lower, rfl, rfl, ?_⟩
          rw [laidOver]
          exact ⟨_, rfl⟩
      | _ => exact Or.inl rfl
  | _ => exact Or.inl rfl

theorem merge_laidOver_eq_or (h : ∀ du dl, upper = some (.fields du) → lower ≠ some (.fields dl)) :
    Option.merge laidOver upper lower = upper.or lower := by
  cases upper with
  | none => cases lower <;> rfl
  | some d =>
      cases lower with
      | none => rfl
      | some d' =>
          rcases laidOver_eq_or d d' with heq | ⟨du, dl, rfl, rfl, -⟩
          · exact congrArg some heq
          · exact absurd rfl (h du dl rfl)

/-- What is no record hides what lies below. -/
theorem given_of_layers (hr : RejectsRecords decode)
    (h : Given decode (Option.merge laidOver upper lower) default value) :
    Given decode (upper.or lower) default value := by
  cases upper with
  | none => cases lower <;> exact h
  | some d =>
      cases lower with
      | none => exact h
      | some d' =>
          have hd : decode (d.laidOver d') = some value := h
          rcases laidOver_eq_or d d' with heq | ⟨_, _, _, _, entries, heq⟩
          · rwa [heq] at hd
          · rw [heq, hr] at hd
            cases hd

theorem exists_fields_of_merge (hu : ∀ d, upper = some d → ∃ entries, d = .fields entries)
    (hl : ∀ d, lower = some d → ∃ entries, d = .fields entries) {d : Datum}
    (h : Option.merge laidOver upper lower = some d) : ∃ entries, d = .fields entries := by
  cases upper with
  | none =>
      rw [Option.merge_none_left] at h
      exact hl d h
  | some du =>
      cases lower with
      | none =>
          rw [Option.merge_none_right] at h
          exact hu d h
      | some dl =>
          obtain ⟨es, rfl⟩ := hu du rfl
          obtain ⟨es', rfl⟩ := hl dl rfl
          rw [Option.merge, laidOver] at h
          cases h
          exact ⟨_, rfl⟩

/-- A layer of settings: a record with the sections as records, and with each name once in every record
inside. -/
structure Layer (d : Datum) : Prop where
  record : ∃ entries, d = .fields entries
  lawful : d.Lawful
  sections : HasSections d

variable {d : Datum}

theorem Layer.records_field (h : Layer d) (name : String) : Records [name] d :=
  have hempty : Records [] d := trivial
  hempty.concat (fun d' hd' => by cases hd'; exact h.record) name

theorem Layer.records_section (h : Layer d) (hpath : path ∈ sectionPaths) : Records path d := by
  have hcustom := Records.concat (h.records_field "pluralization")
    (h.sections _ (by simp [sectionPaths])) "custom"
  simp only [sectionPaths, List.mem_cons, List.not_mem_nil, or_false] at hpath
  rcases hpath with rfl | rfl | rfl | rfl
  · exact h.records_field _
  · exact h.records_field _
  · exact hcustom
  · exact h.records_field _

theorem Layer.records_part (h : Layer d) (hpath : path ∈ sectionPaths) (part : String) :
    Records (path ++ [part]) d :=
  (h.records_section hpath).concat (h.sections path hpath) part

theorem Layer.laidOver (hu : Layer u) (hl : Layer l) : Layer (u.laidOver l) where
  record := by
    obtain ⟨upper, rfl⟩ := hu.record
    obtain ⟨lower, rfl⟩ := hl.record
    rw [Datum.laidOver]
    exact ⟨_, rfl⟩
  lawful := lawful_laidOver hu.lawful hl.lawful
  sections := by
    intro path hpath d hd
    rw [at?_laidOver hu.lawful hl.lawful (hu.records_section hpath) (hl.records_section hpath)] at hd
    exact exists_fields_of_merge (hu.sections path hpath) (hl.sections path hpath) hd

/-! ## Parts of decoded layers -/

variable {σ : Type}

theorem Layer.given_field (part : σ → α) (hm : Layer m) {s s' : σ}
    (h : ∀ entries, m = .fields entries → (entries.map Prod.fst).Nodup →
      Given decode (entries.lookup name) (part s) (part s')) :
    Given decode (m.at? [name]) (part s) (part s') := by
  obtain ⟨entries, rfl⟩ := hm.record
  have hlookup : (Datum.fields entries).at? [name] = entries.lookup name := by
    rw [at?]
    cases entries.lookup name <;> rfl
  rw [hlookup]
  exact h entries rfl hm.lawful.nodup

/-- A part of a section is decoded from the field of its name in the section. -/
theorem Layer.given_part (part : σ → α) (hm : Layer m) (hpath : path ∈ sectionPaths)
    {decodeSection : Datum → Option σ} {default r : σ}
    (h : Given decodeSection (m.at? path) default r)
    (hpart : ∀ entries, (entries.map Prod.fst).Nodup → decodeSection (.fields entries) = some r →
      Given decode (entries.lookup name) (part default) (part r)) :
    Given decode (m.at? (path ++ [name])) (part default) (part r) := by
  rw [at?_append]
  cases hd : m.at? path with
  | none =>
      rw [hd] at h
      have hr : r = default := h
      rw [hr]
      rfl
  | some d =>
      rw [hd] at h
      obtain ⟨entries, rfl⟩ := hm.sections path hpath d hd
      have hlawful := Lawful.passesOn.of_at? hm.lawful hd
      have hlookup : (some (Datum.fields entries)).bind (at? [name]) = entries.lookup name := by
        rw [Option.bind_some, at?]
        cases entries.lookup name <;> rfl
      rw [hlookup]
      exact hpart entries hlawful.nodup h

theorem given_of_laidOver (hu : Layer u) (hl : Layer l) (hru : Records path u) (hrl : Records path l)
    (hr : RejectsRecords decode) (h : Given decode ((u.laidOver l).at? path) default value) :
    Given decode ((u.at? path).or (l.at? path)) default value := by
  rw [at?_laidOver hu.lawful hl.lawful hru hrl] at h
  exact given_of_layers hr h

/-- A part of a section is told by the layers, the upper one first. -/
theorem given_part_of_layers (part : σ → α) (hu : Layer u) (hl : Layer l) (hpath : path ∈ sectionPaths)
    {decodeSection : Datum → Option σ} {default r : σ}
    (h : Given decodeSection ((u.laidOver l).at? path) default r) (hr : RejectsRecords decode)
    (hpart : ∀ entries, (entries.map Prod.fst).Nodup → decodeSection (.fields entries) = some r →
      Given decode (entries.lookup name) (part default) (part r)) :
    Given decode ((u.at? (path ++ [name])).or (l.at? (path ++ [name]))) (part default) (part r) :=
  given_of_laidOver hu hl (hu.records_part hpath name) (hl.records_part hpath name) hr
    ((hu.laidOver hl).given_part part hpath h hpart)

/-! ## Records of settings and options -/

section

open SettingDecoder

variable {s : Settings}

theorem given_setting (part : Settings → α) (hu : Layer u) (hl : Layer l)
    (h : record "struct Config" Settings.ownFields narrow {} (u.laidOver l) = .ok s)
    (hd : Decides SettingField.name SettingField.assign Settings.ownFields name decode part) :
    Given decode ((u.laidOver l).at? [name]) (part {}) (part s) :=
  (hu.laidOver hl).given_field part fun entries heq hnodup =>
    given_assignEntries hd hnodup (by rw [heq] at h; exact h)

theorem given_setting_of_layers (part : Settings → α) (hu : Layer u) (hl : Layer l)
    (h : record "struct Config" Settings.ownFields narrow {} (u.laidOver l) = .ok s)
    (hd : Decides SettingField.name SettingField.assign Settings.ownFields name decode part)
    (hr : RejectsRecords decode) :
    Given decode ((u.at? [name]).or (l.at? [name])) (part {}) (part s) :=
  given_of_laidOver hu hl (hu.records_field name) (hl.records_field name) hr
    (given_setting part hu hl h hd)

theorem given_logging_of_layers (part : Logging → α) (hu : Layer u) (hl : Layer l)
    (h : record "struct Config" Settings.ownFields narrow {} (u.laidOver l) = .ok s)
    (hd : Decides SettingField.name SettingField.assign Logging.settingFields name decode part)
    (hr : RejectsRecords decode) :
    Given decode ((u.at? ["logging", name]).or (l.at? ["logging", name])) (part {})
      (part s.logging) := by
  have hsection : Given (value? Logging.ofDatum) ((u.laidOver l).at? ["logging"]) {} s.logging :=
    given_setting Settings.logging hu hl h
      ⟨⟨_, rfl, sets_of fun _ _ => rfl⟩, by simp [Settings.ownFields, keeps_of]⟩
  exact given_part_of_layers part hu hl (by simp [sectionPaths]) hsection hr fun _ hnodup h' =>
    given_assignEntries hd hnodup (value?_eq_some_iff.1 h')

end

section

open Json Json.Decoder

variable {o : Options}

theorem given_option (part : Options → α) (hu : Layer u) (hl : Layer l)
    (h : Options.ofJson (u.laidOver l).node = .ok o)
    (hd : Decides RecordField.name assign Options.jsonFields name decode part) :
    Given decode ((u.laidOver l).at? [name]) (part {}) (part o) :=
  (hu.laidOver hl).given_field part fun entries heq hnodup =>
    given_record hd hnodup (by rw [heq] at h; exact h)

theorem given_option_of_layers (part : Options → α) (hu : Layer u) (hl : Layer l)
    (h : Options.ofJson (u.laidOver l).node = .ok o)
    (hd : Decides RecordField.name assign Options.jsonFields name decode part)
    (hr : RejectsRecords decode) :
    Given decode ((u.at? [name]).or (l.at? [name])) (part {}) (part o) :=
  given_of_laidOver hu hl (hu.records_field name) (hl.records_field name) hr
    (given_option part hu hl h hd)

theorem given_inflection (hu : Layer u) (hl : Layer l)
    (h : Options.ofJson (u.laidOver l).node = .ok o) :
    Given (value? InflectionRules.ofJson) ((u.laidOver l).at? ["pluralization"]) {} o.inflection :=
  given_option Options.inflection hu hl h
    ⟨⟨_, rfl, sets_of fun _ _ => rfl⟩, by simp [Options.jsonFields, keeps_of]⟩

theorem given_inflection_of_layers (part : InflectionRules → α) (hu : Layer u) (hl : Layer l)
    (h : Options.ofJson (u.laidOver l).node = .ok o)
    (hd : Decides RecordField.name assign InflectionRules.jsonFields name decode part)
    (hr : RejectsRecords decode) :
    Given decode ((u.at? ["pluralization", name]).or (l.at? ["pluralization", name])) (part {})
      (part o.inflection) :=
  given_part_of_layers part hu hl (by simp [sectionPaths]) (given_inflection hu hl h) hr
    fun _ hnodup h' => given_record hd hnodup (value?_eq_some_iff.1 h')

theorem given_prefixes_of_layers (part : MutationPrefixes → α) (hu : Layer u) (hl : Layer l)
    (h : Options.ofJson (u.laidOver l).node = .ok o)
    (hd : Decides RecordField.name assign MutationPrefixes.jsonFields name decode part)
    (hr : RejectsRecords decode) :
    Given decode ((u.at? ["crud_prefixes", name]).or (l.at? ["crud_prefixes", name])) (part {})
      (part o.mutationPrefixes) := by
  have hsection : Given (value? MutationPrefixes.ofJson) ((u.laidOver l).at? ["crud_prefixes"]) {}
      o.mutationPrefixes :=
    given_option Options.mutationPrefixes hu hl h
      ⟨⟨_, rfl, sets_of fun _ _ => rfl⟩, by simp [Options.jsonFields, keeps_of]⟩
  exact given_part_of_layers part hu hl (by simp [sectionPaths]) hsection hr fun _ hnodup h' =>
    given_record hd hnodup (value?_eq_some_iff.1 h')

theorem given_table_of_layers (hu : Layer u) (hl : Layer l)
    (h : Options.ofJson (u.laidOver l).node = .ok o) (key : String) :
    Given (fun d => (value? string d).map some)
      ((u.at? ["pluralization", "custom", key]).or (l.at? ["pluralization", "custom", key])) none
      (o.inflection.custom.get? key) := by
  have hcustom : Decides RecordField.name assign InflectionRules.jsonFields "custom"
      (value? suffixTable) InflectionRules.custom :=
    ⟨⟨_, rfl, sets_of fun _ _ => rfl⟩, by simp [InflectionRules.jsonFields, keeps_of]⟩
  have htable : Given (value? suffixTable) ((u.laidOver l).at? ["pluralization", "custom"]) .empty
      o.inflection.custom :=
    (hu.laidOver hl).given_part InflectionRules.custom (by simp [sectionPaths])
      (given_inflection hu hl h) fun _ hnodup h' =>
        given_record hcustom hnodup (value?_eq_some_iff.1 h')
  exact given_part_of_layers (fun t : SortedMap String => t.get? key) hu hl (by simp [sectionPaths])
    htable (fun _ => rfl) fun _ hnodup h' =>
      given_suffixTable hnodup (value?_eq_some_iff.1 h') key

end

/-- Settings are decoded in two parts from one record. -/
theorem Settings.ofDatum_eq_ok_iff {s : Settings} : Settings.ofDatum m = .ok s ↔
    ∃ own o, SettingDecoder.record "struct Config" ownFields SettingDecoder.narrow {} m = .ok own ∧
      Options.ofJson m.node = .ok o ∧ s = { own with options := o } := by
  have hoptions (o : Options) : Options.ofDatum m = .ok o ↔ Options.ofJson m.node = .ok o := by
    unfold Options.ofDatum
    cases Options.ofJson m.node <;> simp [Except.mapError]
  constructor
  · intro h
    obtain ⟨own, hown, h⟩ := bind_eq_ok_iff.1 h
    obtain ⟨o, ho, h⟩ := bind_eq_ok_iff.1 h
    cases h
    exact ⟨own, o, hown, (hoptions o).1 ho, rfl⟩
  · rintro ⟨own, o, hown, ho, rfl⟩
    exact bind_eq_ok_iff.2 ⟨own, hown, bind_eq_ok_iff.2 ⟨o, (hoptions o).2 ho, rfl⟩⟩

namespace Command.Arguments

open SettingDecoder (nullable filePath outputFormat word? keeps_ofWord)
open Json.Decoder (string bool list optional)

/-- Every setting is what it is told by precedence. -/
structure Precedence (a : Arguments) (u l : Datum) (s : Settings) : Prop where
  schema : Told (SettingDecoder.value? (nullable filePath)) (a.schema.map some) (u.at? ["schema"])
    (l.at? ["schema"]) none s.schema
  output : Told (SettingDecoder.value? filePath) a.output (u.at? ["output"]) (l.at? ["output"])
    "openapi.yaml" s.output
  format : (∀ upper lower, u.at? ["format"] = some (.fields upper) →
      l.at? ["format"] ≠ some (.fields lower)) →
    Told (SettingDecoder.value? outputFormat) a.format (u.at? ["format"]) (l.at? ["format"]) .yaml s.format
  /-- Where both layers give a record for the format, it is read off the joined record. -/
  joinedFormat : ∀ upper lower, u.at? ["format"] = some (.fields upper) →
    l.at? ["format"] = some (.fields lower) →
      Told (SettingDecoder.value? outputFormat) a.format
        (some ((Datum.fields upper).laidOver (.fields lower))) none .yaml s.format
  customPlurals : Told (SettingDecoder.value? (nullable filePath)) (a.customPlurals.map some)
    (u.at? ["custom_plurals"]) (l.at? ["custom_plurals"]) none s.customPlurals
  level : Told (word? LogLevel.ofText?) a.level (u.at? ["logging", "level"])
    (l.at? ["logging", "level"]) .info s.logging.level
  path : Told (SettingDecoder.value? (nullable filePath)) none (u.at? ["logging", "path"])
    (l.at? ["logging", "path"]) none s.logging.path
  rotation : Told (word? Rotation.ofText?) none (u.at? ["logging", "rotation"])
    (l.at? ["logging", "rotation"]) .daily s.logging.rotation
  title : Told (Json.Decoder.value? (optional string)) (a.title.map some) (u.at? ["title"])
    (l.at? ["title"]) none s.options.title
  version : Told (Json.Decoder.value? string) a.version (u.at? ["version"]) (l.at? ["version"])
    "1.0.0" s.options.version
  baseUrl : Told (Json.Decoder.value? (optional string)) (a.baseUrl.map some) (u.at? ["base_url"])
    (l.at? ["base_url"]) none s.options.baseUrl
  pathPrefix : Told (Json.Decoder.value? string) a.pathPrefix (u.at? ["path_prefix"])
    (l.at? ["path_prefix"]) "" s.options.pathPrefix
  detectResources : Told (Json.Decoder.value? bool) a.detectResources (u.at? ["detect_rest_patterns"])
    (l.at? ["detect_rest_patterns"]) true s.options.detectResources
  /-- The tables of suffixes are joined key by key. -/
  custom : ∀ key, Told (fun d => (Json.Decoder.value? string d).map some) none
    (u.at? ["pluralization", "custom", key]) (l.at? ["pluralization", "custom", key]) none
    (s.options.inflection.custom.get? key)
  /-- Blanks around the suffixes of the flag are dropped, and so are empty ones. -/
  esSuffixes : Told (Json.Decoder.value? (list string))
    (a.esSuffixes.map fun values => (values.map Text.trim).filter fun v => !v.isEmpty)
    (u.at? ["pluralization", "es_suffixes"]) (l.at? ["pluralization", "es_suffixes"])
    ["s", "x", "z", "ch", "sh"] s.options.inflection.esSuffixes
  iesSuffix : Told (Json.Decoder.value? string) a.iesSuffix (u.at? ["pluralization", "ies_suffix"])
    (l.at? ["pluralization", "ies_suffix"]) "y" s.options.inflection.iesSuffix
  defaultSuffix : Told (Json.Decoder.value? string) a.defaultSuffix
    (u.at? ["pluralization", "default_suffix"]) (l.at? ["pluralization", "default_suffix"]) "s"
    s.options.inflection.defaultSuffix
  createPrefix : Told (Json.Decoder.value? string) a.createPrefix (u.at? ["crud_prefixes", "create"])
    (l.at? ["crud_prefixes", "create"]) "create" s.options.mutationPrefixes.create
  updatePrefix : Told (Json.Decoder.value? string) a.updatePrefix (u.at? ["crud_prefixes", "update"])
    (l.at? ["crud_prefixes", "update"]) "update" s.options.mutationPrefixes.update
  deletePrefix : Told (Json.Decoder.value? string) a.deletePrefix (u.at? ["crud_prefixes", "delete"])
    (l.at? ["crud_prefixes", "delete"]) "delete" s.options.mutationPrefixes.delete

/-- The format that the joined layers tell, whatever they give for it. -/
theorem told_format (hu : Layer u) (hl : Layer l) {s : Settings}
    (h : SettingDecoder.record "struct Config" Settings.ownFields SettingDecoder.narrow {}
      (u.laidOver l) = .ok s) (flag : Option OutputFormat) :
    Told (SettingDecoder.value? outputFormat) flag
      (Option.merge Datum.laidOver (u.at? ["format"]) (l.at? ["format"])) none .yaml
      (flag.getD s.format) := by
  have hgiven : Given (SettingDecoder.value? outputFormat) ((u.laidOver l).at? ["format"]) .yaml
      s.format :=
    given_setting Settings.format hu hl h ⟨⟨_, rfl, SettingDecoder.sets_of fun _ _ => rfl⟩, by
      simp [Settings.ownFields, SettingDecoder.keeps_of]⟩
  rw [at?_laidOver hu.lawful hl.lawful (hu.records_field _) (hl.records_field _)] at hgiven
  refine told_of_given ?_ flag
  rwa [Option.or_none]

theorem told_or_none {flag : Option α} :
    Told decode flag (upper.or lower) none default value ↔ Told decode flag upper lower default value := by
  cases flag <;> cases upper <;> cases lower <;> rfl

theorem precedence_applyTo (a : Arguments) (hu : Layer u) (hl : Layer l) {s : Settings} {o : Options}
    (hs : SettingDecoder.record "struct Config" Settings.ownFields SettingDecoder.narrow {}
      (u.laidOver l) = .ok s) (ho : Options.ofJson (u.laidOver l).node = .ok o) :
    a.Precedence u l (a.applyTo { s with options := o }) where
  schema := told_or_of_given (given_setting_of_layers Settings.schema hu hl hs
    ⟨⟨_, rfl, SettingDecoder.sets_of fun _ _ => rfl⟩, by
      simp [Settings.ownFields, SettingDecoder.keeps_of]⟩ fun _ => rfl) a.schema
  output := told_of_given (given_setting_of_layers Settings.output hu hl hs
    ⟨⟨_, rfl, SettingDecoder.sets_of fun _ _ => rfl⟩, by
      simp [Settings.ownFields, SettingDecoder.keeps_of]⟩ fun _ => rfl) a.output
  format h := by
    have hformat := told_format hu hl hs a.format
    rwa [merge_laidOver_eq_or h, told_or_none] at hformat
  joinedFormat upper lower hupper hlower := by
    have hformat := told_format hu hl hs a.format
    rwa [hupper, hlower] at hformat
  customPlurals := told_or_of_given (given_setting_of_layers Settings.customPlurals hu hl hs
    ⟨⟨_, rfl, SettingDecoder.sets_of fun _ _ => rfl⟩, by
      simp [Settings.ownFields, SettingDecoder.keeps_of]⟩ fun _ => rfl) a.customPlurals
  level := told_of_given (given_logging_of_layers Logging.level hu hl hs
    ⟨⟨_, rfl, SettingDecoder.sets_ofWord fun _ _ => rfl⟩, by
      simp [Logging.settingFields, SettingDecoder.keeps_of, keeps_ofWord]⟩ fun _ => rfl) a.level
  path := told_of_given (given_logging_of_layers Logging.path hu hl hs
    ⟨⟨_, rfl, SettingDecoder.sets_of fun _ _ => rfl⟩, by
      simp [Logging.settingFields, keeps_ofWord]⟩ fun _ => rfl) none
  rotation := told_of_given (given_logging_of_layers Logging.rotation hu hl hs
    ⟨⟨_, rfl, SettingDecoder.sets_ofWord fun _ _ => rfl⟩, by
      simp [Logging.settingFields, SettingDecoder.keeps_of, keeps_ofWord]⟩ fun _ => rfl) none
  title := told_or_of_given (given_option_of_layers Options.title hu hl ho
    ⟨⟨_, rfl, Json.Decoder.sets_of fun _ _ => rfl⟩, by
      simp [Options.jsonFields, Json.Decoder.keeps_of]⟩ fun _ => rfl) a.title
  version := told_of_given (given_option_of_layers Options.version hu hl ho
    ⟨⟨_, rfl, Json.Decoder.sets_of fun _ _ => rfl⟩, by
      simp [Options.jsonFields, Json.Decoder.keeps_of]⟩ fun _ => rfl) a.version
  baseUrl := told_or_of_given (given_option_of_layers Options.baseUrl hu hl ho
    ⟨⟨_, rfl, Json.Decoder.sets_of fun _ _ => rfl⟩, by
      simp [Options.jsonFields, Json.Decoder.keeps_of]⟩ fun _ => rfl) a.baseUrl
  pathPrefix := told_of_given (given_option_of_layers Options.pathPrefix hu hl ho
    ⟨⟨_, rfl, Json.Decoder.sets_of fun _ _ => rfl⟩, by
      simp [Options.jsonFields, Json.Decoder.keeps_of]⟩ fun _ => rfl) a.pathPrefix
  detectResources := told_of_given (given_option_of_layers Options.detectResources hu hl ho
    ⟨⟨_, rfl, Json.Decoder.sets_of fun _ _ => rfl⟩, by
      simp [Options.jsonFields, Json.Decoder.keeps_of]⟩ fun _ => rfl) a.detectResources
  custom key := told_of_given (given_table_of_layers hu hl ho key) none
  esSuffixes := told_of_given (given_inflection_of_layers InflectionRules.esSuffixes hu hl ho
    ⟨⟨_, rfl, Json.Decoder.sets_of fun _ _ => rfl⟩, by
      simp [InflectionRules.jsonFields, Json.Decoder.keeps_of]⟩ fun _ => rfl) (a.esSuffixes.map meantSuffixes)
  iesSuffix := told_of_given (given_inflection_of_layers InflectionRules.iesSuffix hu hl ho
    ⟨⟨_, rfl, Json.Decoder.sets_of fun _ _ => rfl⟩, by
      simp [InflectionRules.jsonFields, Json.Decoder.keeps_of]⟩ fun _ => rfl) a.iesSuffix
  defaultSuffix := told_of_given (given_inflection_of_layers InflectionRules.defaultSuffix hu hl ho
    ⟨⟨_, rfl, Json.Decoder.sets_of fun _ _ => rfl⟩, by
      simp [InflectionRules.jsonFields, Json.Decoder.keeps_of]⟩ fun _ => rfl) a.defaultSuffix
  createPrefix := told_of_given (given_prefixes_of_layers MutationPrefixes.create hu hl ho
    ⟨⟨_, rfl, Json.Decoder.sets_of fun _ _ => rfl⟩, by
      simp [MutationPrefixes.jsonFields, Json.Decoder.keeps_of]⟩ fun _ => rfl) a.createPrefix
  updatePrefix := told_of_given (given_prefixes_of_layers MutationPrefixes.update hu hl ho
    ⟨⟨_, rfl, Json.Decoder.sets_of fun _ _ => rfl⟩, by
      simp [MutationPrefixes.jsonFields, Json.Decoder.keeps_of]⟩ fun _ => rfl) a.updatePrefix
  deletePrefix := told_of_given (given_prefixes_of_layers MutationPrefixes.delete hu hl ho
    ⟨⟨_, rfl, Json.Decoder.sets_of fun _ _ => rfl⟩, by
      simp [MutationPrefixes.jsonFields, Json.Decoder.keeps_of]⟩ fun _ => rfl) a.deletePrefix

/-! ## Settings of a run -/

variable {sources sources' : SettingSources} {file : Datum}

theorem layer_upper (h : HasSections sources.upper) : Layer sources.upper where
  record := (Environment.exists_settings sources.environment).1
  lawful := (Environment.exists_settings sources.environment).2
  sections := h

theorem layer_lower (hfile : sources.lower = .ok file) (h : HasSections file) : Layer file := by
  have hrecord : (∃ entries, file = .fields entries) ∧ file.Lawful := by
    unfold SettingSources.lower at hfile
    split at hfile
    · exact Yaml.lawful_fields hfile
    · cases hfile
      exact ⟨⟨[], rfl⟩, .fields List.nodup_nil (List.forall_mem_nil _)⟩
  exact ⟨hrecord.1, hrecord.2, h⟩

theorem load_eq (h : sources'.merged = sources.merged) : sources'.load = sources.load := by
  rw [SettingSources.load, SettingSources.load, h]

/-- Settings that are told are decoded from the joined layers, their own fields and the options apart. -/
theorem exists_of_settings_eq_ok {a : Arguments} {s : Settings} (hfile : sources.lower = .ok file)
    (h : a.settings sources = .ok s) :
    ∃ own o, SettingDecoder.record "struct Config" Settings.ownFields SettingDecoder.narrow {}
        (sources.upper.laidOver file) = .ok own ∧
      Options.ofJson (sources.upper.laidOver file).node = .ok o ∧
      s = a.applyTo { own with options := o } := by
  obtain ⟨told, hload, rfl⟩ := map_eq_ok_iff.1 h
  have hmerged : sources.merged = .ok (sources.upper.laidOver file) := by
    rw [SettingSources.merged, hfile]
    rfl
  rw [SettingSources.load, hmerged] at hload
  obtain ⟨own, o, hown, ho, rfl⟩ := Settings.ofDatum_eq_ok_iff.1 hload
  exact ⟨own, o, hown, ho, rfl⟩

/-- The settings of a run go by precedence. What is refused, and why, lies with the joined layers; the
flags have no part in it. -/
theorem settings_by_precedence (a : Arguments) (sources : SettingSources) :
    (∀ file s, sources.lower = .ok file → HasSections sources.upper → HasSections file →
      a.settings sources = .ok s → a.Precedence sources.upper file s) ∧
    ∀ (a' : Arguments) (sources' : SettingSources) (r : Refusal),
      sources'.merged = sources.merged →
        (a'.settings sources' = .error r ↔ a.settings sources = .error r) := by
  refine ⟨fun file s hfile hupper hlower h => ?_, fun a' sources' r hmerged => ?_⟩
  · obtain ⟨own, o, hown, ho, rfl⟩ := exists_of_settings_eq_ok hfile h
    exact a.precedence_applyTo (layer_upper hupper) (layer_lower hfile hlower) hown ho
  · rw [settings, settings, load_eq hmerged]
    cases sources.load <;> simp [Except.map]

/-- Settings that differ between the layers. -/
def layered : SettingSources where
  environment := [("GRAPHQL_OPENAPI_LOGGING__LEVEL", "debug"),
    ("GRAPHQL_OPENAPI_PLURALIZATION", "{custom={ox=oxen}}"), ("GRAPHQL_OPENAPI_TITLE", "Farm")]
  file := some {
    name := "farm.yaml"
    text := "output: farm.json\nlogging:\n  level: warn\n  path: logs\npluralization:\n  custom:\n" ++
      "    ox: oxes\n    child: children\n" }

/-- A truth value that is none. -/
def misread : SettingSources where
  environment := [("GRAPHQL_OPENAPI_DETECT_REST_PATTERNS", "often")]

/-- Flags for a title and for suffixes, one of which is empty. -/
def zoo : Arguments := { title := some "Zoo", esSuffixes := some [" s ", ""] }

theorem layered_by_precedence :
    (∃ file, layered.lower = .ok file ∧ HasSections layered.upper ∧ HasSections file ∧
      zoo.Precedence layered.upper file {
        output := "farm.json"
        logging := { level := .debug, path := some "logs" }
        options := {
          title := some "Zoo"
          inflection := {
            custom := .ofList [("ox", "oxen"), ("child", "children")]
            esSuffixes := ["s"] } } }) ∧
    ∃ r, zoo.settings misread = .error r ∧ ({} : Arguments).settings misread = .error r := by
  refine ⟨?_, ?_⟩
  · obtain ⟨file, hfile, hlower⟩ : ∃ file, layered.lower = .ok file ∧ HasSections file :=
      exists_eq_ok_of_any (by decide +kernel)
    have hupper : HasSections layered.upper := by decide +kernel
    exact ⟨file, hfile, hupper, hlower,
      (settings_by_precedence zoo layered).1 file _ hfile hupper hlower (by decide +kernel)⟩
  · obtain ⟨r, hr⟩ : ∃ r, ({} : Arguments).settings misread = .error r :=
      exists_eq_error_of_toOption (by decide +kernel)
    exact ⟨r, ((settings_by_precedence {} misread).2 zoo misread r rfl).2 hr, hr⟩

/-- A format that both layers give as a record. -/
def joined : SettingSources where
  environment := [("GRAPHQL_OPENAPI_FORMAT", "{yaml=true}")]
  file := some { name := "farm.yaml", text := "format:\n  json:\n" }

/-- What the environment gives is no format, and that of the settings comes from the file below. -/
theorem joined_not_by_precedence :
    ∃ file, joined.lower = .ok file ∧ HasSections joined.upper ∧ HasSections file ∧
      ({} : Arguments).settings joined = .ok { format := .json } ∧
      ¬ Told (SettingDecoder.value? outputFormat) none (joined.upper.at? ["format"])
        (file.at? ["format"]) .yaml .json := by
  obtain ⟨file, hfile, hlower⟩ : ∃ file, joined.lower = .ok file ∧ HasSections file :=
    exists_eq_ok_of_any (by decide +kernel)
  have hupper : HasSections joined.upper := by decide +kernel
  exact ⟨file, hfile, hupper, hlower, by decide +kernel, not_told_of_any (by decide +kernel)⟩

end Command.Arguments

end GraphRest
