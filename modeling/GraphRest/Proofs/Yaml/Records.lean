import GraphRest.Proofs.Data.Datum
import GraphRest.Proofs.Data.Outcome
import GraphRest.Yaml.Reader

/-!
# Records from YAML

What a YAML text describes is a record. There are no single characters in it, and the names of every record
stand in byte order, each once, also where aliases stand for what is described elsewhere.
-/

namespace GraphRest.Yaml

/-- A value that a YAML text can describe. -/
inductive Described : Datum → Prop
  | null : Described .null
  | bool (b : Bool) : Described (.bool b)
  | whole (n : Nat) : Described (.whole n)
  | negative (n : Nat) : Described (.negative n)
  | float (d : Double) : Described (.float d)
  | text (s : String) : Described (.text s)
  | list {items : List Datum} (hitems : ∀ d ∈ items, Described d) : Described (.list items)
  | fields {entries : List (String × Datum)} (sorted : entries.Pairwise (fun x y => x.1 < y.1))
      (hentries : ∀ x ∈ entries, Described x.2) : Described (.fields entries)

theorem Described.lawful {d : Datum} (h : Described d) : d.Lawful := by
  induction h with
  | null => exact .null
  | bool b => exact .bool b
  | whole n => exact .whole n
  | negative n => exact .negative n
  | float d => exact .float d
  | text s => exact .text s
  | list _ ih => exact .list ih
  | fields sorted _ ih => exact .fields (SortedMap.nodup_keys ⟨_, sorted⟩) ih

theorem Described.passesOn : Datum.PassesOn Described where
  items h := by cases h; assumption
  entries h := by cases h; assumption

theorem described_ofEntries {entries : List (String × Datum)} (h : ∀ x ∈ entries, Described x.2) :
    Described (.ofEntries entries) :=
  .fields (SortedMap.sorted _) fun x hx => h x (SortedMap.mem_of_mem_entries_ofList hx)

/-- What the anchors name is described too. -/
def Known.Described (k : Known) : Prop := ∀ a ∈ k.anchors, Yaml.Described a.value

variable {path tag text : String} {place : Place} {d : Datum} {k : Known}

theorem Known.Described.note (hk : k.Described) (hd : Yaml.Described d) (p : Properties)
    (text : Except (Json.Found × Place) String) : (k.note p d text).Described := by
  unfold Known.note
  split
  · exact List.forall_mem_cons.2 ⟨hd, hk⟩
  · exact hk

theorem Known.Described.anchored {name : String} {a : Anchored} (hk : k.Described)
    (h : k.anchored name place = .ok a) : Yaml.Described a.value := by
  unfold Known.anchored at h
  split at h
  · cases h
    exact hk _ (List.mem_of_find?_eq_some ‹_›)
  · cases h

/-! ## Scalars -/

theorem described_plain (s : String) (p : Plain) : Described (p.datum s) := by
  cases p <;> constructor

theorem described_demanded {wanted : String} {o : Option Datum} (ho : ∀ d ∈ o, Described d)
    (h : demanded path wanted text place o = .ok d) : Described d := by
  cases o with
  | some d' =>
      cases h
      exact ho d rfl
  | none => cases h

theorem described_taggedScalar (h : taggedScalar path tag text place = .ok d) : Described d := by
  unfold taggedScalar at h
  split at h
  · refine described_demanded ?_ h
    split <;> rintro _ ⟨⟩
    exact .null
  · split at h
    · refine described_demanded ?_ h
      split <;> rintro _ ⟨⟩
      exact .bool _
    · split at h
      · refine described_demanded ?_ h
        split <;> rintro _ ⟨⟩
        · exact .whole _
        · exact .negative _
      · split at h
        · refine described_demanded (fun d hd => ?_) h
          obtain ⟨x, -, rfl⟩ := Option.map_eq_some_iff.1 hd
          exact .float x
        · cases h
          exact .text text

theorem described_scalarDatum {t : Option String} {plain : Bool}
    (h : scalarDatum path t plain text place = .ok d) : Described d := by
  unfold scalarDatum at h
  split at h
  · split at h
    · cases h
    · exact described_taggedScalar h
  · cases h
    split
    · exact described_plain text _
    · exact .text text

theorem described_keyText {n : Node} {name : String} {k' : Known} (hk : k.Described)
    (h : keyText path k n = .ok (name, k')) : k'.Described := by
  cases n with
  | aliasTo anchor place =>
      obtain ⟨a, -, h⟩ := bind_eq_ok_iff.1 h
      split at h
      · cases h
        exact hk
      · cases h
  | scalar p plain text place =>
      obtain ⟨t, -, heq⟩ := bind_eq_ok_iff.1 h
      cases heq
      exact hk.note (.text _) p _
  | list p items place =>
      obtain ⟨t, -, h⟩ := bind_eq_ok_iff.1 h
      cases h
  | fields p entries place =>
      obtain ⟨t, -, h⟩ := bind_eq_ok_iff.1 h
      cases h
  | broken f => cases h

/-! ## Nodes -/

mutual

theorem described_datum : ∀ (n : Node) {path : String} {k k' : Known} {d : Datum}, k.Described →
    datum path k n = .ok (d, k') → Described d ∧ k'.Described
  | .aliasTo name place, path, k, k', d, hk, h => by
    rw [datum] at h
    obtain ⟨a, ha, heq⟩ := bind_eq_ok_iff.1 h
    cases heq
    exact ⟨hk.anchored ha, hk⟩
  | .scalar p plain text place, path, k, k', d, hk, h => by
    rw [datum] at h
    obtain ⟨t, -, h⟩ := bind_eq_ok_iff.1 h
    obtain ⟨d', hd, heq⟩ := bind_eq_ok_iff.1 h
    cases heq
    exact ⟨described_scalarDatum hd, hk.note (described_scalarDatum hd) p _⟩
  | .list p items place, path, k, k', d, hk, h => by
    rw [datum] at h
    obtain ⟨t, -, h⟩ := bind_eq_ok_iff.1 h
    obtain ⟨_, -, h⟩ := bind_eq_ok_iff.1 h
    obtain ⟨⟨ds, k''⟩, hds, heq⟩ := bind_eq_ok_iff.1 h
    cases heq
    obtain ⟨hitems, hk'⟩ := described_itemData items hk hds
    exact ⟨.list hitems, hk'.note (.list hitems) p _⟩
  | .fields p entries place, path, k, k', d, hk, h => by
    rw [datum] at h
    obtain ⟨t, -, h⟩ := bind_eq_ok_iff.1 h
    obtain ⟨_, -, h⟩ := bind_eq_ok_iff.1 h
    obtain ⟨⟨es, k''⟩, hes, heq⟩ := bind_eq_ok_iff.1 h
    cases heq
    obtain ⟨hentries, hk'⟩ := described_entryData entries hk hes
    exact ⟨described_ofEntries hentries, hk'.note (described_ofEntries hentries) p _⟩
  | .broken f, path, k, k', d, hk, h => by
    rw [datum] at h
    cases h

theorem described_itemData : ∀ (ns : List Node) {path : String} {position : Nat} {k k' : Known}
    {ds : List Datum}, k.Described → itemData path position k ns = .ok (ds, k') →
      (∀ d ∈ ds, Described d) ∧ k'.Described
  | [], path, position, k, k', ds, hk, h => by
    rw [itemData] at h
    cases h
    exact ⟨List.forall_mem_nil _, hk⟩
  | n :: ns, path, position, k, k', ds, hk, h => by
    rw [itemData] at h
    obtain ⟨⟨d, k₁⟩, hd, h⟩ := bind_eq_ok_iff.1 h
    obtain ⟨⟨ds', k₂⟩, hds, heq⟩ := bind_eq_ok_iff.1 h
    cases heq
    obtain ⟨hd, hk₁⟩ := described_datum n hk hd
    obtain ⟨hds, hk₂⟩ := described_itemData ns hk₁ hds
    exact ⟨List.forall_mem_cons.2 ⟨hd, hds⟩, hk₂⟩

theorem described_entryData : ∀ (es : List (Node × Node)) {path : String} {k k' : Known}
    {ds : List (String × Datum)}, k.Described → entryData path k es = .ok (ds, k') →
      (∀ x ∈ ds, Described x.2) ∧ k'.Described
  | [], path, k, k', ds, hk, h => by
    rw [entryData] at h
    cases h
    exact ⟨List.forall_mem_nil _, hk⟩
  | (key, v) :: es, path, k, k', ds, hk, h => by
    rw [entryData] at h
    obtain ⟨⟨name, k₁⟩, hname, h⟩ := bind_eq_ok_iff.1 h
    obtain ⟨⟨d, k₂⟩, hd, h⟩ := bind_eq_ok_iff.1 h
    obtain ⟨⟨ds', k₃⟩, hds, heq⟩ := bind_eq_ok_iff.1 h
    cases heq
    obtain ⟨hd, hk₂⟩ := described_datum v (described_keyText hk hname) hd
    obtain ⟨hds, hk₃⟩ := described_entryData es hk₂ hds
    exact ⟨List.forall_mem_cons.2 ⟨hd, hds⟩, hk₃⟩

end

/-! ## Texts -/

theorem described_rootFields {n : Node} {es : List (String × Datum)} (hk : k.Described)
    (h : rootFields k n = .ok es) : ∀ x ∈ es, Described x.2 := by
  cases n with
  | aliasTo name place => cases h
  | scalar p plain text place =>
      obtain ⟨t, -, h⟩ := bind_eq_ok_iff.1 h
      split at h
      · cases h
        exact List.forall_mem_nil _
      · split at h <;> cases h
  | list p items place =>
      obtain ⟨t, -, h⟩ := bind_eq_ok_iff.1 h
      cases h
  | fields p entries place =>
      obtain ⟨t, -, h⟩ := bind_eq_ok_iff.1 h
      obtain ⟨⟨es', k'⟩, hes, heq⟩ := bind_eq_ok_iff.1 h
      cases heq
      exact (described_entryData entries hk hes).1
  | broken f => cases h

theorem eq_of_ending {ending : Option Failure} {entries : List (String × Datum)}
    (h : (match ending with
      | some f => throw f
      | none => pure (Datum.ofEntries entries) : Except Failure Datum) = .ok d) :
    d = .ofEntries entries := by
  cases ending <;> cases h
  rfl

/-- What a text describes is a record. -/
theorem described_fields (h : fields text = .ok d) : (∃ entries, d = .fields entries) ∧ Described d := by
  obtain ⟨entries, hentries, rfl⟩ :
      ∃ entries : List (String × Datum), (∀ x ∈ entries, Described x.2) ∧ d = .ofEntries entries := by
    unfold fields at h
    dsimp only at h
    split at h
    · exact ⟨[], List.forall_mem_nil _, eq_of_ending h⟩
    · obtain ⟨entries, hentries, h⟩ := bind_eq_ok_iff.1 h
      have hnew : Known.Described { handles := (Document.ofTokens (tokens text)).handles } :=
        List.forall_mem_nil _
      exact ⟨entries, described_rootFields hnew hentries, eq_of_ending h⟩
  exact ⟨⟨_, rfl⟩, described_ofEntries hentries⟩

/-- What a text describes is a record, with each name once in every record inside. -/
theorem lawful_fields (h : fields text = .ok d) : (∃ entries, d = .fields entries) ∧ d.Lawful :=
  ⟨(described_fields h).1, (described_fields h).2.lawful⟩

end GraphRest.Yaml
