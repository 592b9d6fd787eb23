import GraphRest.Proofs.Data.Datum
import GraphRest.Proofs.Data.Outcome
import GraphRest.Settings.Decode

/-!
# Parts of decoded records

What decides on a part of a record that is decoded: the field of its name, or the default if there is no
such field. The fields of settings and those of options are decoded in two ways that agree on this.
-/

namespace GraphRest

/-- A value is decoded from what is given for it; with nothing given it is the default. -/
def Given {α : Type} (decode : Datum → Option α) (given : Option Datum) (default value : α) : Prop :=
  match given with
  | some d => decode d = some value
  | none => value = default

/-- The assignment to a field sets a part of the record to what it decodes. -/
def Sets {ν ε σ α : Type} (assign : ν → σ → Except ε σ) (decode : ν → Option α)
    (part : σ → α) : Prop :=
  ∀ d s s', assign d s = .ok s' → decode d = some (part s')

/-- The assignment to a field leaves a part of the record as it is. -/
def Keeps {ν ε σ α : Type} (assign : ν → σ → Except ε σ) (part : σ → α) : Prop :=
  ∀ d s s', assign d s = .ok s' → part s' = part s

/-- The field of a name decides on a part, and no other field does. -/
structure Decides {φ ε σ α : Type} (key : φ → String) (assign : φ → Datum → σ → Except ε σ)
    (fields : List φ) (name : String) (decode : Datum → Option α) (part : σ → α) : Prop where
  own : ∃ f, fields.find? (key · = name) = some f ∧ Sets (assign f) decode part
  others : ∀ f ∈ fields, key f ≠ name → Keeps (assign f) part

variable {α β σ : Type} {name : String} {es : List (String × Datum)} {s s' : σ} {part : σ → α}

theorem Decides.keeps {φ ε : Type} {key : φ → String} {assign : φ → Datum → σ → Except ε σ}
    {fields : List φ} {decode : Datum → Option α} {other : String} {f : φ}
    (hd : Decides key assign fields name decode part)
    (hf : fields.find? (key · = other) = some f) (hne : name ≠ other) : Keeps (assign f) part := by
  have hkey : key f = other := by simpa using List.find?_some hf
  exact hd.others f (List.mem_of_find?_eq_some hf) (hkey ▸ hne.symm)

theorem Given.congr {decode : Datum → Option α} {given : Option Datum} {default default' value : α}
    (h : Given decode given default value) (hd : default = default') :
    Given decode given default' value := hd ▸ h

/-- Behind the entry that decides there is no other one of its name. -/
theorem Given.cons_self {decode : Datum → Option α} {d : Datum} {default told value : α}
    (hname : name ∉ es.map Prod.fst) (hd : decode d = some told)
    (h : Given decode (es.lookup name) told value) :
    Given decode (((name, d) :: es).lookup name) default value := by
  have hnone : es.lookup name = none := List.lookup_eq_none_iff.2 fun _ hx =>
    bne_iff_ne.2 (ne_of_mem_of_not_mem (List.mem_map_of_mem hx) hname).symm
  rw [hnone] at h
  have hvalue : value = told := h
  rw [List.lookup_cons_self, Given, hvalue]
  exact hd

theorem Given.cons_of_ne {decode : Datum → Option α} {key : String} {d : Datum} {default value : α}
    (hk : name ≠ key) (h : Given decode (es.lookup name) default value) :
    Given decode (((key, d) :: es).lookup name) default value := by
  rw [List.lookup_cons, beq_false_of_ne hk]
  exact h

/-! ## Settings -/

namespace SettingDecoder

/-- What a decoder makes of a value, if anything. -/
def value? (decode : SettingDecoder α) (d : Datum) : Option α := (decode d).toOption

/-- What a word stands for. -/
def word? (lookup : String → Option α) (d : Datum) : Option α := (value? (text "a string") d).bind lookup

theorem value?_eq_some_iff {decode : SettingDecoder α} {d : Datum} {a : α} :
    value? decode d = some a ↔ decode d = .ok a := by
  unfold value?
  cases decode d <;> simp [Except.toOption]

theorem within_eq_ok_iff {x : Except Refusal α} {a : α} : within name x = .ok a ↔ x = .ok a := by
  cases x <;> simp [within]

@[simp] theorem name_of {decode : SettingDecoder α} {set : α → σ → σ} :
    (SettingField.of name decode set).name = name := rfl

@[simp] theorem name_ofWord {lookup : String → Option α} {message : String → String}
    {set : α → σ → σ} : (SettingField.ofWord name lookup message set).name = name := rfl

theorem sets_of {decode : SettingDecoder α} {set : α → σ → σ} (h : ∀ v s, part (set v s) = v) :
    Sets (SettingField.of name decode set).assign (value? decode) part := by
  intro d s s' hassign
  obtain ⟨v, hv, rfl⟩ := map_eq_ok_iff.1 (within_eq_ok_iff.1 hassign)
  rw [h, value?_eq_some_iff, hv]

theorem keeps_of {decode : SettingDecoder β} {set : β → σ → σ} (h : ∀ v s, part (set v s) = part s) :
    Keeps (SettingField.of name decode set).assign part := by
  intro d s s' hassign
  obtain ⟨v, -, rfl⟩ := map_eq_ok_iff.1 (within_eq_ok_iff.1 hassign)
  exact h v s

theorem assign_ofWord {lookup : String → Option β} {message : String → String} {set : β → σ → σ}
    {d : Datum} (h : (SettingField.ofWord name lookup message set).assign d s = .ok s') :
    ∃ v, word? lookup d = some v ∧ s' = set v s := by
  obtain ⟨w, hw, h⟩ := bind_eq_ok_iff.1 h
  split at h
  · cases h
    rename_i v hv
    refine ⟨v, ?_, rfl⟩
    rw [word?, value?_eq_some_iff.2 (within_eq_ok_iff.1 hw), Option.bind_some, hv]
  · cases h

theorem sets_ofWord {lookup : String → Option α} {message : String → String} {set : α → σ → σ}
    (h : ∀ v s, part (set v s) = v) :
    Sets (SettingField.ofWord name lookup message set).assign (word? lookup) part := by
  intro d s s' hassign
  obtain ⟨v, hv, rfl⟩ := assign_ofWord hassign
  rw [h, hv]

theorem keeps_ofWord {lookup : String → Option β} {message : String → String} {set : β → σ → σ}
    (h : ∀ v s, part (set v s) = part s) :
    Keeps (SettingField.ofWord name lookup message set).assign part := by
  intro d s s' hassign
  obtain ⟨v, -, rfl⟩ := assign_ofWord hassign
  exact h v s

/-- What a run over entries leaves in a part. -/
theorem given_assignEntries {fields : List (SettingField σ)} {check : Datum → Except Refusal Unit}
    {decode : Datum → Option α}
    (hd : Decides SettingField.name SettingField.assign fields name decode part)
    (hes : (es.map Prod.fst).Nodup) (h : assignEntries fields check es s = .ok s') :
    Given decode (es.lookup name) (part s) (part s') := by
  induction es generalizing s with
  | nil =>
      cases h
      rfl
  | cons x es ih =>
      obtain ⟨key, d⟩ := x
      obtain ⟨hkey, hrest⟩ := List.nodup_cons.1 hes
      obtain ⟨own, hown, hsets⟩ := hd.own
      rw [assignEntries] at h
      by_cases hk : name = key
      · subst hk
        rw [hown] at h
        obtain ⟨s₁, hs₁, h⟩ := bind_eq_ok_iff.1 h
        exact (ih hrest h).cons_self hkey (hsets d s s₁ hs₁)
      · refine Given.cons_of_ne hk ?_
        split at h
        · rename_i f hf
          obtain ⟨s₁, hs₁, h⟩ := bind_eq_ok_iff.1 h
          exact (ih hrest h).congr (hd.keeps hf hk d s s₁ hs₁)
        · obtain ⟨_, -, h⟩ := bind_eq_ok_iff.1 h
          exact ih hrest h

end SettingDecoder

/-! ## Options -/

namespace Json.Decoder

variable {ε : Type}

/-- What a decoder makes of a value, if anything. -/
def value? (decode : Decoder α) (d : Datum) : Option α := (decode d.node).toOption

theorem value?_eq_some_iff {decode : Decoder α} {d : Datum} {a : α} :
    value? decode d = some a ↔ decode d.node = .ok a := by
  unfold value?
  cases decode d.node <;> simp [Except.toOption]

/-- The assignment of a field, on data. -/
def assign (f : RecordField σ) (d : Datum) (s : σ) : Except Misfit σ := f.assign d.node s

@[simp] theorem name_of {decode : Decoder α} {set : α → σ → σ} :
    (RecordField.of name decode set).name = name := rfl

theorem sets_of {decode : Decoder α} {set : α → σ → σ} (h : ∀ v s, part (set v s) = v) :
    Sets (assign (.of name decode set)) (value? decode) part := by
  intro d s s' hassign
  obtain ⟨v, hv, rfl⟩ := map_eq_ok_iff.1 hassign
  rw [h, value?_eq_some_iff, hv]

theorem keeps_of {decode : Decoder β} {set : β → σ → σ} (h : ∀ v s, part (set v s) = part s) :
    Keeps (assign (.of name decode set)) part := by
  intro d s s' hassign
  obtain ⟨v, -, rfl⟩ := map_eq_ok_iff.1 hassign
  exact h v s

/-- What a run over entries leaves in a part. -/
theorem given_assignEntries {fields : List (RecordField σ)} {decode : Datum → Option α}
    (hd : Decides RecordField.name assign fields name decode part) {seen : List String}
    (hes : (es.map Prod.fst).Nodup)
    (h : assignEntries fields seen (Datum.entryNodes es) s = .ok s') :
    Given decode (es.lookup name) (part s) (part s') := by
  induction es generalizing s seen with
  | nil =>
      cases h
      rfl
  | cons x es ih =>
      obtain ⟨key, d⟩ := x
      obtain ⟨hkey, hrest⟩ := List.nodup_cons.1 hes
      obtain ⟨own, hown, hsets⟩ := hd.own
      rw [Datum.entryNodes, assignEntries] at h
      by_cases hk : name = key
      · subst hk
        rw [hown] at h
        dsimp only at h
        split at h
        · cases h
        · obtain ⟨s₁, hs₁, h⟩ := bind_eq_ok_iff.1 h
          exact (ih hrest h).cons_self hkey (hsets d s s₁ hs₁)
      · refine Given.cons_of_ne hk ?_
        split at h
        · split at h
          · cases h
          · exact ih hrest h
        · rename_i f hf
          split at h
          · cases h
          · obtain ⟨s₁, hs₁, h⟩ := bind_eq_ok_iff.1 h
            exact (ih hrest h).congr (hd.keeps hf hk d s s₁ hs₁)

theorem given_record {fields : List (RecordField σ)} {decode : Datum → Option α} {wanted : String}
    (hd : Decides RecordField.name assign fields name decode part) (hes : (es.map Prod.fst).Nodup)
    (h : record wanted fields s (Datum.fields es).node = .ok s') :
    Given decode (es.lookup name) (part s) (part s') := by
  rw [Datum.node, record] at h
  obtain ⟨s₁, hs₁, h⟩ := bind_eq_ok_iff.1 h
  cases h
  exact given_assignEntries hd hes hs₁

end Json.Decoder

/-! ## Tables -/

namespace Json.Decoder

/-- The pairs of a table, in the order of its entries. -/
theorem lookup_mapM_entryNodes {pairs : List (String × String)} (key : String)
    (h : ((Datum.entryNodes es).mapM fun (key, _, n) => do return (key, ← string n)) = .ok pairs) :
    pairs.map Prod.fst = es.map Prod.fst ∧
      Given (fun d => (value? string d).map some) (es.lookup key) none (pairs.lookup key) := by
  induction es generalizing pairs with
  | nil =>
      cases h
      exact ⟨rfl, rfl⟩
  | cons x es ih =>
      obtain ⟨name, d⟩ := x
      rw [Datum.entryNodes, List.mapM_cons] at h
      obtain ⟨pair, hpair, h⟩ := bind_eq_ok_iff.1 h
      obtain ⟨rest, hrest, h⟩ := bind_eq_ok_iff.1 h
      obtain ⟨v, hv, hmk⟩ := bind_eq_ok_iff.1 hpair
      cases h
      cases hmk
      obtain ⟨hnames, hgiven⟩ := ih hrest
      refine ⟨by rw [List.map_cons, List.map_cons, hnames], ?_⟩
      rw [List.lookup_cons, List.lookup_cons]
      by_cases hk : key = name
      · subst hk
        simp [Given, value?_eq_some_iff.2 hv]
      · rw [beq_false_of_ne hk]
        exact hgiven

/-- A table of suffixes has under each key the text that is given for it. -/
theorem given_suffixTable {t : SortedMap String} (hes : (es.map Prod.fst).Nodup)
    (h : suffixTable (Datum.fields es).node = .ok t) (key : String) :
    Given (fun d => (value? string d).map some) (es.lookup key) none (t.get? key) := by
  obtain ⟨pairs, hpairs, rfl⟩ := map_eq_ok_iff.1 h
  rw [Datum.node, entries] at hpairs
  obtain ⟨pairs', hpairs, hclose⟩ := bind_eq_ok_iff.1 hpairs
  cases hclose
  obtain ⟨hnames, hgiven⟩ := lookup_mapM_entryNodes key hpairs
  rw [SortedMap.get?_ofList, SortedMap.lookup_reverse (hnames ▸ hes)]
  exact hgiven

end Json.Decoder

end GraphRest
