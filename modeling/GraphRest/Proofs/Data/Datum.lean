import GraphRest.Data.Datum
import GraphRest.Proofs.Data.SortedMap

/-!
# Records in layers

Values whose records have each name once, and what stands in a value that is laid over another: field by
field what the upper one has, and what the lower one has under the names that the upper one leaves free.
-/

namespace GraphRest.Datum

/-! ## Records with each name once -/

/-- Every record in a value, at any depth, has each name once. -/
inductive Lawful : Datum → Prop
  | null : Lawful .null
  | bool (b : Bool) : Lawful (.bool b)
  | whole (n : Nat) : Lawful (.whole n)
  | negative (n : Nat) : Lawful (.negative n)
  | float (d : Double) : Lawful (.float d)
  | char (c : Char) : Lawful (.char c)
  | text (s : String) : Lawful (.text s)
  | list {items : List Datum} (hitems : ∀ d ∈ items, Lawful d) : Lawful (.list items)
  | fields {entries : List (String × Datum)} (names : (entries.map Prod.fst).Nodup)
      (hentries : ∀ x ∈ entries, Lawful x.2) : Lawful (.fields entries)

variable {d u l : Datum} {entries upper lower : List (String × Datum)} {name : String}

theorem lawful_ofEntries (h : ∀ x ∈ entries, x.2.Lawful) : (ofEntries entries).Lawful :=
  .fields (SortedMap.nodup_keys _) fun x hx => h x (SortedMap.mem_of_mem_entries_ofList hx)

theorem Lawful.nodup (h : (Datum.fields entries).Lawful) : (entries.map Prod.fst).Nodup := by
  cases h
  assumption

theorem Lawful.of_mem (h : (Datum.fields entries).Lawful) {x : String × Datum} (hx : x ∈ entries) :
    x.2.Lawful := by
  cases h with
  | fields _ hentries => exact hentries x hx

/-! ## One layer over another -/

theorem fst_overEntries : (overEntries upper lower).map Prod.fst = upper.map Prod.fst := by
  induction upper with
  | nil => rfl
  | cons x upper ih =>
      obtain ⟨name, d⟩ := x
      rw [overEntries, List.map_cons, ih, List.map_cons]

theorem lookup_overEntries : (overEntries upper lower).lookup name =
    (upper.lookup name).map fun d => (lower.lookup name).elim d d.laidOver := by
  induction upper with
  | nil => rfl
  | cons x upper ih =>
      obtain ⟨name', d⟩ := x
      rw [overEntries, List.lookup_cons, List.lookup_cons, ih]
      by_cases h : name = name'
      · subst h
        cases lower.lookup name <;> simp
      · simp [beq_false_of_ne h]

/-- Under every name stands what the records have there, the upper value over the lower one. -/
theorem field?_laidOver (hu : (Datum.fields upper).Lawful) (hl : (Datum.fields lower).Lawful)
    (name : String) :
    ((Datum.fields upper).laidOver (.fields lower)).field? name =
      Option.merge laidOver (upper.lookup name) (lower.lookup name) := by
  have hover : ((overEntries upper lower).map Prod.fst).Nodup := by
    rw [fst_overEntries]
    exact hu.nodup
  rw [laidOver, ofEntries, field?, SortedMap.lookup_entries, SortedMap.get?_ofList, List.reverse_append,
    List.lookup_append, SortedMap.lookup_reverse hover, SortedMap.lookup_reverse hl.nodup,
    lookup_overEntries]
  cases upper.lookup name <;> cases lower.lookup name <;> rfl

mutual

theorem lawful_laidOver {u l : Datum} (hu : u.Lawful) (hl : l.Lawful) : (u.laidOver l).Lawful := by
  cases u with
  | fields upper =>
      cases l with
      | fields lower =>
          rw [laidOver]
          refine lawful_ofEntries fun x hx => ?_
          rcases List.mem_append.1 hx with hx | hx
          · exact hl.of_mem hx
          · exact lawful_overEntries (fun _ => hu.of_mem) (fun _ => hl.of_mem) x hx
      | _ => exact hu
  | _ => exact hu

theorem lawful_overEntries : ∀ {upper lower : List (String × Datum)},
    (∀ x ∈ upper, x.2.Lawful) → (∀ x ∈ lower, x.2.Lawful) →
      ∀ x ∈ overEntries upper lower, x.2.Lawful
  | [], _, _, _ => by simp [overEntries]
  | (name, d) :: upper, lower, hu, hl => by
    rw [overEntries]
    refine List.forall_mem_cons.2 ⟨?_, lawful_overEntries (fun x hx => hu x (List.mem_cons_of_mem _ hx)) hl⟩
    have hd : d.Lawful := hu (name, d) List.mem_cons_self
    dsimp only
    split
    · rename_i d' hd'
      exact lawful_laidOver hd (hl _ (SortedMap.mem_of_lookup hd'))
    · exact hd

end

/-! ## Paths -/

/-- Along a path of names only records are met. -/
def Records : List String → Datum → Prop
  | [], _ => True
  | name :: path, d => ∃ entries, d = .fields entries ∧
      ∀ d', entries.lookup name = some d' → Records path d'

theorem at?_append (d : Datum) (path rest : List String) :
    d.at? (path ++ rest) = (d.at? path).bind (at? rest) := by
  induction path generalizing d with
  | nil => rfl
  | cons name path ih =>
      have hrest : at? (path ++ rest) = fun d => (at? path d).bind (at? rest) := funext ih
      rw [List.cons_append]
      cases d with
      | fields entries => simp only [at?, Option.bind_assoc, hrest]
      | list items => simp only [at?, Option.bind_assoc, hrest]
      | _ => rfl

/-- What holds of a value holds of its parts: of the items of a list and the fields of a record. -/
structure PassesOn (P : Datum → Prop) : Prop where
  items : ∀ {items : List Datum}, P (.list items) → ∀ d ∈ items, P d
  entries : ∀ {entries : List (String × Datum)}, P (.fields entries) → ∀ x ∈ entries, P x.2

theorem PassesOn.of_at? {P : Datum → Prop} (hP : PassesOn P) {path : List String} (h : P u)
    (hd : u.at? path = some d) : P d := by
  induction path generalizing u with
  | nil =>
      cases hd
      exact h
  | cons name path ih =>
      cases u with
      | fields entries =>
          obtain ⟨d', hd', hd⟩ := Option.bind_eq_some_iff.1 hd
          exact ih (hP.entries h _ (SortedMap.mem_of_lookup hd')) hd
      | list items =>
          obtain ⟨d', hd', hd⟩ := Option.bind_eq_some_iff.1 hd
          obtain ⟨n, -, hn⟩ := Option.bind_eq_some_iff.1 hd'
          exact ih (hP.items h d' (List.mem_of_getElem? hn)) hd
      | _ => cases hd

theorem Lawful.passesOn : PassesOn Lawful where
  items h := by cases h; assumption
  entries h := by cases h; assumption

/-- A path may go on by a name where it ends at records. -/
theorem Records.concat {path : List String} (h : Records path d)
    (hd : ∀ d', d.at? path = some d' → ∃ entries, d' = .fields entries) (name : String) :
    Records (path ++ [name]) d := by
  induction path generalizing d with
  | nil =>
      obtain ⟨entries, rfl⟩ := hd d rfl
      exact ⟨entries, rfl, fun _ _ => trivial⟩
  | cons part path ih =>
      obtain ⟨entries, rfl, h⟩ := h
      refine ⟨entries, rfl, fun d' hd' => ih (h d' hd') fun d'' hd'' => hd d'' ?_⟩
      rw [at?, hd']
      exact hd''

/-- At the end of a path along records stands what both layers have there, the upper over the lower. -/
theorem at?_laidOver {path : List String} (hu : u.Lawful) (hl : l.Lawful) (hru : Records path u)
    (hrl : Records path l) :
    (u.laidOver l).at? path = Option.merge laidOver (u.at? path) (l.at? path) := by
  induction path generalizing u l with
  | nil => rfl
  | cons name path ih =>
      obtain ⟨upper, rfl, hru⟩ := hru
      obtain ⟨lower, rfl, hrl⟩ := hrl
      have hfield := field?_laidOver hu hl name
      have hat : ((fields upper).laidOver (fields lower)).at? (name :: path) =
          (((fields upper).laidOver (fields lower)).field? name).bind (at? path) := rfl
      rw [hat, hfield, at?, at?]
      cases hd : upper.lookup name with
      | none => cases lower.lookup name <;> simp
      | some d =>
          cases hd' : lower.lookup name with
          | none => simp
          | some d' =>
              exact ih (hu.of_mem (SortedMap.mem_of_lookup hd)) (hl.of_mem (SortedMap.mem_of_lookup hd'))
                (hru d hd) (hrl d' hd')

end GraphRest.Datum
