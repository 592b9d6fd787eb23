import GraphRest.Proofs.Settings.Decode

/-!
# When records are decoded

A record is decoded just if each of its fields takes what is given for it and what stands under other names
passes the check there. For the options that check passes everything; for settings it turns away numbers that are
too wide for 64 bits, at any depth.
-/

namespace GraphRest

/-! ## Wide numbers -/

namespace Datum

/-- A value stands in another, at any depth, or is that other. -/
inductive Inside : Datum → Datum → Prop
  | self (d : Datum) : Inside d d
  | item {x y : Datum} {items : List Datum} (hy : y ∈ items) (h : Inside x y) : Inside x (.list items)
  | entry {x y : Datum} {name : String} {entries : List (String × Datum)} (hy : (name, y) ∈ entries)
      (h : Inside x y) : Inside x (.fields entries)

theorem Inside.of_field {x y d : Datum} {name : String} (h : Inside x y) (hy : d.field? name = some y) :
    Inside x d := by
  cases d with
  | fields entries => exact .entry (SortedMap.mem_of_lookup hy) h
  | _ => cases hy

/-- A whole number that no integer of 64 bits is, with a sign or without. -/
def IsWide : Datum → Prop
  | .whole n => Nat.pow 2 64 ≤ n
  | .negative n => Nat.pow 2 63 < n
  | _ => False

variable {P : Datum → Prop}

theorem forall_inside_list {items : List Datum} :
    (∀ x, x.Inside (.list items) → P x) ↔ P (.list items) ∧ ∀ y ∈ items, ∀ x, x.Inside y → P x := by
  refine ⟨fun h => ⟨h _ (.self _), fun y hy x hx => h x (.item hy hx)⟩, fun ⟨hself, hitems⟩ x hx => ?_⟩
  cases hx with
  | self => exact hself
  | item hy hx => exact hitems _ hy x hx

theorem forall_inside_fields {entries : List (String × Datum)} :
    (∀ x, x.Inside (.fields entries) → P x) ↔
      P (.fields entries) ∧ ∀ y ∈ entries, ∀ x, x.Inside y.2 → P x := by
  refine ⟨fun h => ⟨h _ (.self _), fun y hy x hx => h x (.entry hy hx)⟩, fun ⟨hself, hentries⟩ x hx => ?_⟩
  cases hx with
  | self => exact hself
  | entry hy hx => exact hentries _ hy x hx

/-- Nothing stands in a value without parts but itself. -/
theorem forall_inside_scalar {d : Datum} (hlist : ∀ items, d ≠ .list items)
    (hfields : ∀ entries, d ≠ .fields entries) : (∀ x, x.Inside d → P x) ↔ P d := by
  refine ⟨fun h => h d (.self d), fun hd x hx => ?_⟩
  cases hx with
  | self => exact hd
  | item => exact absurd rfl (hlist _)
  | entry => exact absurd rfl (hfields _)

end Datum

namespace SettingDecoder

open Datum

mutual

/-- Settings turn away wide numbers, at any depth, and nothing else. -/
theorem narrow_eq_ok_iff : ∀ d : Datum, narrow d = .ok () ↔ ∀ x : Datum, x.Inside d → ¬ x.IsWide
  | .list items => by
    rw [narrow, narrowItems_eq_ok_iff items, forall_inside_list]
    exact (and_iff_right id).symm
  | .fields entries => by
    rw [narrow, narrowEntries_eq_ok_iff entries, forall_inside_fields]
    exact (and_iff_right id).symm
  | .whole n => by
    refine Iff.trans ?_ (forall_inside_scalar (by simp) (by simp)).symm
    simp [narrow, IsWide, isWide, misfit]
  | .negative n => by
    refine Iff.trans ?_ (forall_inside_scalar (by simp) (by simp)).symm
    simp [narrow, IsWide, isWideNegative, misfit]
  | .null | .bool _ | .float _ | .char _ | .text _ => by
    refine Iff.trans ?_ (forall_inside_scalar (by simp) (by simp)).symm
    simp [narrow, IsWide]

theorem narrowItems_eq_ok_iff : ∀ (items : List Datum) {position : Nat},
    narrowItems position items = .ok () ↔ ∀ y ∈ items, ∀ x : Datum, x.Inside y → ¬ x.IsWide
  | [], position => by simp [narrowItems]
  | d :: items, position => by
    rw [narrowItems, bind_unit_eq_ok_iff, within_eq_ok_iff, List.forall_mem_cons, narrow_eq_ok_iff d,
      narrowItems_eq_ok_iff items]

theorem narrowEntries_eq_ok_iff : ∀ entries : List (String × Datum),
    narrowEntries entries = .ok () ↔ ∀ y ∈ entries, ∀ x : Datum, x.Inside y.2 → ¬ x.IsWide
  | [] => by simp [narrowEntries]
  | (name, d) :: entries => by
    rw [narrowEntries, bind_unit_eq_ok_iff, within_eq_ok_iff, List.forall_mem_cons, narrow_eq_ok_iff d,
      narrowEntries_eq_ok_iff entries]

end

end SettingDecoder

/-! ## Fields -/

/-- A field takes a value, whatever its record holds. -/
def Takes {ν ε σ : Type} (assign : ν → σ → Except ε σ) (d : ν) : Prop := ∀ s, ∃ s', assign d s = .ok s'

variable {α σ : Type} {name wanted : String} {d : Datum} {es : List (String × Datum)} {s : σ}

namespace SettingDecoder

theorem takes_of {decode : SettingDecoder α} {set : α → σ → σ} (h : ∃ a, value? decode d = some a) :
    Takes (SettingField.of name decode set).assign d := by
  obtain ⟨a, ha⟩ := h
  exact fun s => ⟨set a s, within_eq_ok_iff.2 (map_eq_ok_iff.2 ⟨a, value?_eq_some_iff.1 ha, rfl⟩)⟩

theorem takes_ofWord {lookup : String → Option α} {message : String → String} {set : α → σ → σ}
    (h : ∃ a, word? lookup d = some a) :
    Takes (SettingField.ofWord name lookup message set).assign d := by
  obtain ⟨a, ha⟩ := h
  obtain ⟨w, hw, ha⟩ := Option.bind_eq_some_iff.1 ha
  refine fun s => ⟨set a s, bind_eq_ok_iff.2 ⟨w, within_eq_ok_iff.2 (value?_eq_some_iff.1 hw), ?_⟩⟩
  rw [ha]
  rfl

/-- Where every field takes what is given for it, the rest decides. -/
theorem exists_assignEntries_iff {fields : List (SettingField σ)} {check : Datum → Except Refusal Unit}
    (h : ∀ x ∈ es, ∀ f, fields.find? (·.name = x.1) = some f → Takes f.assign x.2) :
    (∃ s', assignEntries fields check es s = .ok s') ↔
      ∀ x ∈ es, fields.find? (·.name = x.1) = none → check x.2 = .ok () := by
  induction es generalizing s with
  | nil => simp [assignEntries]
  | cons x es ih =>
      obtain ⟨name, d⟩ := x
      obtain ⟨hself, hrest⟩ := List.forall_mem_cons.1 h
      rw [List.forall_mem_cons]
      cases hfind : fields.find? (·.name = name) with
      | none =>
          simp only [assignEntries, hfind, bind_unit_eq_ok_iff, within_eq_ok_iff, exists_and_left, ih hrest,
            true_imp_iff]
      | some f =>
          obtain ⟨s', hs'⟩ := hself f hfind s
          simp only [assignEntries, hfind, hs', Except.bind, ih hrest]
          simp

end SettingDecoder

namespace Json.Decoder

theorem takes_of {decode : Decoder α} {set : α → σ → σ} (h : ∃ a, value? decode d = some a) :
    Takes (assign (.of name decode set)) d := by
  obtain ⟨a, ha⟩ := h
  exact fun s => ⟨set a s, map_eq_ok_iff.2 ⟨a, value?_eq_some_iff.1 ha, rfl⟩⟩

mutual

/-- Data has no faults, as no text stands behind it. -/
theorem fault?_node : ∀ d : Datum, d.node.fault? = none
  | .list items => by
    rw [Datum.node, Node.fault?, faultInItems?_nodes items]
    rfl
  | .fields entries => by
    rw [Datum.node, Node.fault?, faultInEntries?_entryNodes entries]
    rfl
  | .null | .bool _ | .whole _ | .negative _ | .float _ | .char _ | .text _ => by
    rw [Datum.node, Node.fault?]

theorem faultInItems?_nodes : ∀ items : List Datum, Node.faultInItems? (Datum.nodes items) = none
  | [] => rfl
  | d :: items => by
    rw [Datum.nodes, Node.faultInItems?, fault?_node d, faultInItems?_nodes items]
    rfl

theorem faultInEntries?_entryNodes : ∀ entries : List (String × Datum),
    Node.faultInEntries? (Datum.entryNodes entries) = none
  | [] => rfl
  | (name, d) :: entries => by
    rw [Datum.entryNodes, Node.faultInEntries?, fault?_node d, faultInEntries?_entryNodes entries]
    rfl

end

/-- Fields of which each takes what is given for it are set, as no name comes twice. -/
theorem exists_assignEntries {fields : List (RecordField σ)} {seen : List String}
    (hes : (es.map Prod.fst).Nodup) (hseen : ∀ x ∈ es, x.1 ∉ seen)
    (h : ∀ x ∈ es, ∀ f, fields.find? (·.name = x.1) = some f → Takes (assign f) x.2) :
    ∃ s', assignEntries fields seen (Datum.entryNodes es) s = .ok s' := by
  induction es generalizing s seen with
  | nil => exact ⟨s, rfl⟩
  | cons x es ih =>
      obtain ⟨name, d⟩ := x
      obtain ⟨hname, hes⟩ := List.nodup_cons.1 hes
      obtain ⟨hnew, hseen⟩ := List.forall_mem_cons.1 hseen
      obtain ⟨hself, hrest⟩ := List.forall_mem_cons.1 h
      rw [Datum.entryNodes, assignEntries]
      cases hfind : fields.find? (·.name = name) with
      | none =>
          simp only [fault?_node d]
          exact ih hes hseen hrest
      | some f =>
          obtain ⟨s', hs'⟩ := hself f hfind s
          have hseen' : ∀ x ∈ es, x.1 ∉ name :: seen := by
            intro x hx hmem
            rcases List.mem_cons.1 hmem with heq | hmem
            · exact hname (List.mem_map.2 ⟨x, hx, heq⟩)
            · exact hseen x hx hmem
          obtain ⟨s'', hs''⟩ := ih (s := s') hes hseen' hrest
          have hcontains : seen.contains name = false := by simpa using hnew
          have hassign : f.assign d.node s = .ok s' := hs'
          refine ⟨s'', ?_⟩
          simp only [hcontains, hassign]
          exact hs''

theorem exists_record {fields : List (RecordField σ)} (hes : (es.map Prod.fst).Nodup)
    (h : ∀ x ∈ es, ∀ f, fields.find? (·.name = x.1) = some f → Takes (assign f) x.2) :
    ∃ s', value? (record wanted fields s) (.fields es) = some s' := by
  obtain ⟨s', hs'⟩ := exists_assignEntries hes (fun _ _ => List.not_mem_nil) h
  refine ⟨s', value?_eq_some_iff.2 ?_⟩
  rw [Datum.node, record]
  exact bind_eq_ok_iff.2 ⟨s', hs', rfl⟩

/-! ## Lists and tables of texts -/

theorem mapM_string_nodes (ws : List String) :
    (Datum.nodes (ws.map Datum.text)).mapM string = .ok ws := by
  induction ws with
  | nil => rfl
  | cons w ws ih =>
      rw [List.map_cons, Datum.nodes, List.mapM_cons, ih]
      rfl

theorem value?_list_string (ws : List String) :
    value? (list string) (.list (ws.map Datum.text)) = some ws := by
  rw [value?_eq_some_iff, Datum.node, list, mapM_string_nodes]
  rfl

theorem entryNodes_eq_map (es : List (String × Datum)) :
    Datum.entryNodes es = es.map fun x => (x.1, none, x.2.node) := by
  induction es with
  | nil => rfl
  | cons x es ih => rw [Datum.entryNodes, ih, List.map_cons]

/-- A record of texts is a table of suffixes. -/
theorem exists_suffixTable (h : ∀ x ∈ es, ∃ w, x.2 = .text w) :
    ∃ t, value? suffixTable (.fields es) = some t := by
  obtain ⟨pairs, hpairs⟩ : ∃ pairs, entries string (Datum.fields es).node = .ok pairs := by
    rw [Datum.node, entries, entryNodes_eq_map]
    refine exists_bind_eq_ok (exists_mapM_eq_ok fun y hy => ?_) fun pairs => ⟨pairs, rfl⟩
    obtain ⟨x, hx, rfl⟩ := List.mem_map.1 hy
    obtain ⟨w, hw⟩ := h x hx
    rw [hw]
    exact ⟨(x.1, w), rfl⟩
  exact ⟨.ofList pairs, value?_eq_some_iff.2 (map_eq_ok_iff.2 ⟨pairs, hpairs, rfl⟩)⟩

end Json.Decoder

end GraphRest
