import GraphRest.Options.Json
import GraphRest.Proofs.Data.Outcome
import GraphRest.Proofs.Data.SortedMap
import Mathlib.Data.Finset.Lattice.Lemmas
import Mathlib.Data.Finset.Dedup
import Mathlib.Data.List.Forall2

/-!
# Records in JSON

What stands in JSON for the fields of a record, and how a record is decoded from an object that lists some of
them or from a list of the first ones. The order of the fields in an object has no part in it, and neither have
the fields under other names.
-/

namespace GraphRest.Json

/-! ## Values -/

/-- A value is a text, wherever it was read. -/
def IsText (s : String) (n : Node) : Prop := ∃ span, n = .scalar span (.string s)

def IsFlag (b : Bool) (n : Node) : Prop := ∃ span, n = .scalar span (.bool b)

/-- A text that may be absent, which `null` stands for. -/
def IsTextOrNull : Option String → Node → Prop
  | some s, n => IsText s n
  | none, n => ∃ span, n = .scalar span .null

def IsTexts (ws : List String) (n : Node) : Prop :=
  ∃ span items, n = .list span items none ∧ List.Forall₂ IsText ws items

/-- An object has the entries of a table, in any order. -/
def IsTable (t : SortedMap String) (n : Node) : Prop :=
  ∃ span es pairs, n = .fields span es none ∧ pairs.Perm t.entries ∧
    List.Forall₂ (fun x e => e.1 = x.1 ∧ IsText x.2 e.2.2) pairs es

/-! ## Records -/

/-- The fields of a record in order: their names, and which values stand for what they are. -/
abbrev FieldTable := List (String × (Node → Prop))

/-- The names of fields of the record under which entries stand. -/
def FieldTable.named (table : FieldTable) (es : List (String × Option Mark × Node)) : List String :=
  (es.map Prod.fst).filter (· ∈ table.map Prod.fst)

/-- The entries of an object give the chosen fields of a record, each once and in any order, and no other field of
it. Under names of no field there may be anything that is well formed. -/
structure Lists (table : FieldTable) (chosen : Finset String)
    (es : List (String × Option Mark × Node)) : Prop where
  known : ∀ name ∈ chosen, name ∈ table.map Prod.fst
  given : ∀ name ∈ chosen, name ∈ es.map Prod.fst
  told : ∀ e ∈ es, ∀ means, (e.1, means) ∈ table → e.1 ∈ chosen ∧ means e.2.2
  once : (table.named es).Nodup
  other : ∀ e ∈ es, e.1 ∉ table.map Prod.fst → e.2.2.fault? = none

/-- An object lists the chosen fields of a record. -/
def IsObject (table : FieldTable) (chosen : Finset String) (n : Node) : Prop :=
  ∃ span es, n = .fields span es none ∧ Lists table chosen es

/-- The names of the first fields of a record, so many of them. -/
def FieldTable.front (table : FieldTable) (k : Nat) : Finset String :=
  ((table.take k).map Prod.fst).toFinset

/-- A list has the first fields of a record for its items, so many of them. -/
def IsFront (table : FieldTable) (k : Nat) (n : Node) : Prop :=
  ∃ span items, n = .list span items none ∧ List.Forall₂ (fun x m => x.2 m) (table.take k) items

namespace FieldTable

variable {table : FieldTable} {key : String} {mark : Option Mark} {n : Node}
  {es : List (String × Option Mark × Node)}

theorem named_cons_of_mem (h : key ∈ table.map Prod.fst) :
    table.named ((key, mark, n) :: es) = key :: table.named es :=
  List.filter_cons_of_pos (decide_eq_true h)

theorem named_cons_of_not_mem (h : key ∉ table.map Prod.fst) :
    table.named ((key, mark, n) :: es) = table.named es :=
  List.filter_cons_of_neg (by simpa using h)

theorem mem_named {name : String} :
    name ∈ table.named es ↔ name ∈ es.map Prod.fst ∧ name ∈ table.map Prod.fst := by
  simp [named]

theorem front_nil (k : Nat) : front [] k = ∅ := by
  rw [front, List.take_nil]
  rfl

theorem front_zero (table : FieldTable) : table.front 0 = ∅ := rfl

theorem front_cons_succ (x : String × (Node → Prop)) (table : FieldTable) (k : Nat) :
    front (x :: table) (k + 1) = insert x.1 (table.front k) := by
  rw [front, List.take_succ_cons, List.map_cons, List.toFinset_cons, front]

end FieldTable

namespace Decoder

variable {α σ : Type} {name wanted : String} {n : Node}

/-! ## Decoding values -/

theorem mapM_eq_ok {β ε : Type} {f : α → Except ε β} {xs : List α} {ys : List β}
    (h : List.Forall₂ (fun y x => f x = .ok y) ys xs) : xs.mapM f = .ok ys := by
  induction h with
  | nil => rfl
  | cons hy _ ih =>
      rw [List.mapM_cons, hy, ih]
      rfl

theorem string_of_isText {s : String} (h : IsText s n) : string n = .ok s := by
  obtain ⟨span, rfl⟩ := h
  rfl

theorem bool_of_isFlag {b : Bool} (h : IsFlag b n) : bool n = .ok b := by
  obtain ⟨span, rfl⟩ := h
  rfl

theorem optional_of_isTextOrNull {o : Option String} (h : IsTextOrNull o n) :
    optional string n = .ok o := by
  cases o <;> obtain ⟨span, rfl⟩ := h <;> rfl

theorem list_of_isTexts {ws : List String} (h : IsTexts ws n) : list string n = .ok ws := by
  obtain ⟨span, items, rfl, h⟩ := h
  rw [list, mapM_eq_ok (h.imp fun _ _ => string_of_isText)]
  rfl

theorem entries_eq_ok {span : Option Span} {es : List (String × Option Mark × Node)}
    {pairs : List (String × String)}
    (h : List.Forall₂ (fun x e => e.1 = x.1 ∧ IsText x.2 e.2.2) pairs es) :
    entries string (.fields span es none) = .ok pairs := by
  have hentry (x : String × String) (e : String × Option Mark × Node) (he : e.1 = x.1 ∧ IsText x.2 e.2.2) :
      (do return (e.1, ← string e.2.2) : Except Misfit (String × String)) = .ok x := by
    rw [string_of_isText he.2, he.1]
    rfl
  rw [entries, mapM_eq_ok (h.imp hentry)]
  rfl

theorem suffixTable_of_isTable {t : SortedMap String} (h : IsTable t n) : suffixTable n = .ok t := by
  obtain ⟨span, es, pairs, rfl, hperm, hes⟩ := h
  rw [suffixTable, entries_eq_ok hes, ← SortedMap.ofList_eq_of_perm hperm]
  rfl

/-! ## Filling a record -/

/-- A field takes every value that stands for what it is, and adds itself to a record that has some fields so far. -/
structure Fills (only : Finset String → σ) (field : RecordField σ) (x : String × (Node → Prop)) : Prop where
  name : field.name = x.1
  assign : ∀ n, x.2 n → ∀ seen, field.assign n (only seen) = .ok (only (insert x.1 seen))

variable {only : Finset String → σ} {fields : List (RecordField σ)} {table : FieldTable}
  {chosen : Finset String} {es : List (String × Option Mark × Node)}

theorem fills_of {decode : Decoder α} {set : α → σ → σ} {means : Node → Prop} {v : α}
    (hdecode : ∀ n, means n → decode n = .ok v)
    (hset : ∀ seen, set v (only seen) = only (insert name seen)) :
    Fills only (.of name decode set) (name, means) where
  name := rfl
  assign n hn seen := map_eq_ok_iff.2 ⟨v, hdecode n hn, hset seen⟩

theorem find?_eq_none_of_fills (h : List.Forall₂ (Fills only) fields table)
    (hname : name ∉ table.map Prod.fst) : fields.find? (·.name = name) = none := by
  induction h with
  | nil => rfl
  | cons hx _ ih =>
      rw [List.map_cons, List.mem_cons, not_or] at hname
      rw [List.find?_cons_of_neg (by simpa [hx.name] using Ne.symm hname.1)]
      exact ih hname.2

theorem exists_find?_of_fills (h : List.Forall₂ (Fills only) fields table)
    (hname : name ∈ table.map Prod.fst) : ∃ field means,
      fields.find? (·.name = name) = some field ∧ (name, means) ∈ table ∧ Fills only field (name, means) := by
  induction h with
  | nil => cases hname
  | @cons field x fields table hx _ ih =>
      by_cases hk : x.1 = name
      · subst hk
        exact ⟨field, x.2, List.find?_cons_of_pos (by simp [hx.name]), List.mem_cons_self, hx⟩
      · obtain ⟨field', means, hfind, hmem, hfills⟩ := ih ((List.mem_cons.1 hname).resolve_left (Ne.symm hk))
        refine ⟨field', means, ?_, List.mem_cons_of_mem _ hmem, hfills⟩
        rwa [List.find?_cons_of_neg (by simpa [hx.name] using hk)]

/-- What stands in entries is put into the record field by field, in whatever order they come: the names that were seen
are those of the fields that the record has. -/
theorem assignEntries_eq (h : List.Forall₂ (Fills only) fields table)
    (htold : ∀ e ∈ es, ∀ means, (e.1, means) ∈ table → means e.2.2)
    (hother : ∀ e ∈ es, e.1 ∉ table.map Prod.fst → e.2.2.fault? = none) {seen : List String}
    (honce : (table.named es ++ seen).Nodup) :
    assignEntries fields seen es (only seen.toFinset) =
      .ok (only (table.named es ++ seen).toFinset) := by
  induction es generalizing seen with
  | nil => rfl
  | cons e es ih =>
      obtain ⟨key, mark, n⟩ := e
      obtain ⟨hself, htold⟩ := List.forall_mem_cons.1 htold
      obtain ⟨hfault, hother⟩ := List.forall_mem_cons.1 hother
      rw [assignEntries]
      by_cases hkey : key ∈ table.map Prod.fst
      · obtain ⟨field, means, hfind, hmem, hfills⟩ := exists_find?_of_fills h hkey
        have hperm : (table.named ((key, mark, n) :: es) ++ seen).Perm (table.named es ++ key :: seen) := by
          rw [FieldTable.named_cons_of_mem hkey, List.cons_append]
          exact List.perm_middle.symm
        have honce' : (table.named es ++ key :: seen).Nodup := hperm.nodup_iff.1 honce
        have hseen : seen.contains key = false := by
          simpa using (List.nodup_cons.1 (List.nodup_append.1 honce').2.1).1
        have hassign := hfills.assign n (hself means hmem) seen.toFinset
        rw [← List.toFinset_cons] at hassign
        simp only [hfind, hseen, hassign, Except.bind]
        rw [List.toFinset_eq_of_perm _ _ hperm]
        exact ih htold hother honce'
      · rw [FieldTable.named_cons_of_not_mem hkey] at honce ⊢
        simp only [find?_eq_none_of_fills h hkey, hfault hkey]
        exact ih htold hother honce

/-- The items of a list are put into the record one after another. -/
theorem assignItems_eq (h : List.Forall₂ (Fills only) fields table) {k : Nat} {items : List Node}
    (hitems : List.Forall₂ (fun x m => x.2 m) (table.take k) items) (seen : Finset String) :
    assignItems fields items (only seen) = .ok (only (seen ∪ table.front k), []) := by
  induction h generalizing k items seen with
  | nil =>
      rw [List.take_nil] at hitems
      cases hitems
      rw [FieldTable.front_nil, Finset.union_empty]
      rfl
  | @cons field x fields table hx _ ih =>
      cases k with
      | zero =>
          rw [List.take_zero] at hitems
          cases hitems
          rw [FieldTable.front_zero, Finset.union_empty]
          rfl
      | succ k =>
          rw [List.take_succ_cons] at hitems
          cases hitems with
          | cons hm hms =>
              rw [assignItems, hx.assign _ hm, Except.bind, ih hms, FieldTable.front_cons_succ,
                Finset.insert_union, Finset.union_insert]

/-- The names that come up in entries are those of the chosen fields. -/
theorem toFinset_named (h : Lists table chosen es) : (table.named es).toFinset = chosen := by
  ext name
  rw [List.mem_toFinset, FieldTable.mem_named]
  constructor
  · rintro ⟨hes, htable⟩
    obtain ⟨e, he, rfl⟩ := List.mem_map.1 hes
    obtain ⟨x, hx, hname⟩ := List.mem_map.1 htable
    exact (h.told e he x.2 (hname ▸ hx)).1
  · intro hname
    exact ⟨h.given name hname, h.known name hname⟩

/-- An object is decoded into the record that has the chosen fields from it. -/
theorem record_of_isObject (h : List.Forall₂ (Fills only) fields table) (hn : IsObject table chosen n) :
    record wanted fields (only ∅) n = .ok (only chosen) := by
  obtain ⟨span, es, rfl, hes⟩ := hn
  have htold : ∀ e ∈ es, ∀ means, (e.1, means) ∈ table → means e.2.2 :=
    fun e he means hmem => (hes.told e he means hmem).2
  have honce : (table.named es ++ []).Nodup := by
    rw [List.append_nil]
    exact hes.once
  have hassign := assignEntries_eq h htold hes.other honce
  rw [List.append_nil, toFinset_named hes, List.toFinset_nil] at hassign
  rw [record, hassign]
  rfl

/-- A list is decoded into the record that has its first fields from it. -/
theorem record_of_isFront (h : List.Forall₂ (Fills only) fields table) {k : Nat}
    (hn : IsFront table k n) :
    record wanted fields (only ∅) n = .ok (only (table.front k)) := by
  obtain ⟨span, items, rfl, hitems⟩ := hn
  have hending : (if items.length = fields.length then fullEnding none else none) = none := ite_self _
  rw [record, assignItems_eq h hitems, Finset.empty_union]
  simp only [Except.bind, hending]
  rfl

end Decoder

end GraphRest.Json
