import GraphRest.Data.SortedMap
import Mathlib.Data.List.Induction

/-!
# What maps in byte order hold

The entries of a map are what its look-up answers, and every write changes the look-up at its own key
only.
-/

namespace GraphRest.SortedMap

variable {α : Type} {m : SortedMap α} {k k' : String} {v : α}

theorem keys_ne_of_pairwise {x : String × α} {xs : List (String × α)}
    (h : (x :: xs).Pairwise (fun x y => x.1 < y.1)) : ∀ y ∈ xs, y.1 ≠ x.1 := by
  intro y hy he
  have hlt := (List.pairwise_cons.1 h).1 y hy
  rw [he] at hlt
  exact String.lt_irrefl _ hlt

theorem find?_eq_some_iff_mem {xs : List (String × α)} (h : xs.Pairwise (fun x y => x.1 < y.1))
    {x : String × α} : xs.find? (·.1 = x.1) = some x ↔ x ∈ xs := by
  constructor
  · exact List.mem_of_find?_eq_some
  · intro hx
    induction xs with
    | nil => cases hx
    | cons y xs ih =>
        rcases List.mem_cons.1 hx with rfl | hx
        · simp
        · have hne : y.1 ≠ x.1 := (keys_ne_of_pairwise h x hx).symm
          rw [List.find?_cons_of_neg (by simpa using hne)]
          exact ih (List.pairwise_cons.1 h).2 hx

theorem mem_entries_iff : (k, v) ∈ m.entries ↔ m.get? k = some v := by
  rw [← find?_eq_some_iff_mem m.sorted, get?, Option.map_eq_some_iff]
  constructor
  · exact fun h => ⟨_, h, rfl⟩
  · rintro ⟨⟨k', v'⟩, h, rfl⟩
    have hk : k' = k := by simpa using List.find?_some h
    rw [h, hk]

theorem get?_empty : (empty : SortedMap α).get? k = none := rfl

theorem find?_upsertEntries (f : Option α → α) {xs : List (String × α)}
    (h : xs.Pairwise (fun x y => x.1 < y.1)) :
    (upsertEntries k f xs).find? (·.1 = k') =
      if k' = k then some (k, f ((xs.find? (·.1 = k)).map Prod.snd)) else xs.find? (·.1 = k') := by
  induction xs with
  | nil => by_cases hk : k' = k <;> simp [upsertEntries, hk, eq_comm]
  | cons x xs ih =>
      obtain ⟨key, w⟩ := x
      rw [upsertEntries]
      split
      · rename_i heq
        subst heq
        by_cases hk : k' = k
        · simp [hk]
        · simp [hk, Ne.symm hk]
      · rename_i hne
        split
        · rename_i hlt
          have hnone : ((key, w) :: xs).find? (·.1 = k) = none := by
            refine List.find?_eq_none.2 fun y hy he => ?_
            have hy' : y.1 = k := by simpa using he
            rcases List.mem_cons.1 hy with rfl | hy
            · exact hne hy'.symm
            · have := String.lt_trans hlt ((List.pairwise_cons.1 h).1 y hy)
              exact String.lt_irrefl _ (hy' ▸ this)
          by_cases hk : k' = k
          · simp [hk, hnone]
          · simp [hk, Ne.symm hk]
        · by_cases hkey : key = k'
          · have hk : k' ≠ k := fun he => hne (he ▸ hkey.symm)
            simp [hkey, hk]
          · rw [List.find?_cons_of_neg (by simpa using hkey), ih (List.pairwise_cons.1 h).2,
              List.find?_cons_of_neg (by simpa using Ne.symm hne),
              List.find?_cons_of_neg (by simpa using hkey)]

theorem get?_upsert (f : Option α → α) :
    (m.upsert k f).get? k' = if k' = k then some (f (m.get? k)) else m.get? k' := by
  rw [get?, upsert, find?_upsertEntries f m.sorted]
  split <;> rfl

theorem get?_mapValues (f : String → α → α) : (m.mapValues f).get? k = (m.get? k).map (f k) := by
  rw [get?, get?, mapValues, List.find?_map, Option.map_map, Option.map_map]
  cases h : m.entries.find? (·.1 = k) with
  | none => simp [Function.comp_def, h]
  | some x =>
      have hk : x.1 = k := by simpa using List.find?_some h
      simp [Function.comp_def, h, hk]

/-! ## Lists of pairs -/

theorem mem_of_lookup {xs : List (String × α)} (h : xs.lookup k = some v) : (k, v) ∈ xs := by
  obtain ⟨pre, post, rfl, -⟩ := List.lookup_eq_some_iff.1 h
  exact List.mem_append_right _ List.mem_cons_self

/-- In a list with every key once it does not matter from which end a key is looked up. -/
theorem lookup_reverse {xs : List (String × α)} (h : (xs.map Prod.fst).Nodup) :
    xs.reverse.lookup k = xs.lookup k := by
  induction xs with
  | nil => rfl
  | cons x xs ih =>
      obtain ⟨hx, hxs⟩ := List.nodup_cons.1 h
      obtain ⟨k', v⟩ := x
      rw [List.reverse_cons, List.lookup_append, ih hxs, List.lookup_cons, List.lookup_cons,
        List.lookup_nil]
      by_cases hk : k = k'
      · subst hk
        have hnone : xs.lookup k = none := List.lookup_eq_none_iff.2 fun _ hmem =>
          bne_iff_ne.2 (ne_of_mem_of_not_mem (List.mem_map_of_mem hmem) hx).symm
        simp [hnone]
      · simp [beq_false_of_ne hk]

theorem nodup_keys (m : SortedMap α) : (m.entries.map Prod.fst).Nodup := by
  rw [List.Nodup, List.pairwise_map]
  refine m.sorted.imp fun {x y} hlt heq => ?_
  rw [heq] at hlt
  exact String.lt_irrefl _ hlt

theorem nodup_entries (m : SortedMap α) : m.entries.Nodup :=
  (List.pairwise_map.1 m.nodup_keys).imp fun hne heq => hne (congrArg Prod.fst heq)

/-- Maps that answer every look-up the same are equal. -/
theorem eq_of_get? {n : SortedMap α} (h : ∀ k, m.get? k = n.get? k) : m = n := by
  apply ext
  have hmem : ∀ x, x ∈ m.entries ↔ x ∈ n.entries := fun ⟨k, v⟩ => by
    rw [mem_entries_iff, mem_entries_iff, h]
  have hperm : m.entries.Perm n.entries :=
    (List.perm_ext_iff_of_nodup m.nodup_entries n.nodup_entries).2 hmem
  exact hperm.eq_of_pairwise (fun x y _ _ hlt hgt => absurd (String.lt_trans hlt hgt)
    (String.lt_irrefl _)) m.sorted n.sorted

theorem lookup_entries : m.entries.lookup k = m.get? k := by
  cases h : m.get? k with
  | some v =>
      obtain ⟨pre, post, heq⟩ := List.append_of_mem (mem_entries_iff.2 h)
      refine List.lookup_eq_some_iff.2 ⟨pre, post, heq, fun y hy => ?_⟩
      have hlt : y.1 < k := by
        have hsorted := m.sorted
        rw [heq, List.pairwise_append] at hsorted
        exact hsorted.2.2 y hy _ List.mem_cons_self
      exact bne_iff_ne.2 fun hk => String.lt_irrefl _ (hk ▸ hlt)
  | none =>
      refine Option.eq_none_iff_forall_not_mem.2 fun v hv => ?_
      rw [mem_entries_iff.1 (mem_of_lookup hv)] at h
      cases h

/-- Of several pairs with one key that are written over a map, the last one remains. -/
theorem get?_foldl_insert (xs : List (String × α)) (m : SortedMap α) :
    (xs.foldl (fun m x => m.insert x.1 x.2) m).get? k = (xs.reverse.lookup k).or (m.get? k) := by
  induction xs using List.reverseRecOn with
  | nil => rfl
  | append_singleton xs x ih =>
      rw [List.foldl_append, List.foldl_cons, List.foldl_nil, insert, get?_upsert, ih,
        List.reverse_append, List.reverse_singleton, List.singleton_append, List.lookup_cons]
      by_cases h : k = x.1
      · simp [h]
      · simp [h, beq_false_of_ne h]

theorem get?_ofList (xs : List (String × α)) : (ofList xs).get? k = xs.reverse.lookup k := by
  rw [ofList, get?_foldl_insert, get?_empty, Option.or_none]

/-- Entries that stand in order are written as they are. -/
theorem ofList_entries (m : SortedMap α) : ofList m.entries = m :=
  eq_of_get? fun k => by rw [get?_ofList, lookup_reverse m.nodup_keys, lookup_entries]

/-- In a list with every key once the look-up finds whatever stands in it. -/
theorem lookup_eq_some_iff_mem {xs : List (String × α)} (h : (xs.map Prod.fst).Nodup) :
    xs.lookup k = some v ↔ (k, v) ∈ xs := by
  refine ⟨mem_of_lookup, fun hmem => ?_⟩
  obtain ⟨pre, post, rfl⟩ := List.append_of_mem hmem
  rw [List.map_append, List.nodup_append] at h
  refine List.lookup_eq_some_iff.2 ⟨pre, post, rfl, fun x hx => bne_iff_ne.2 ?_⟩
  exact (h.2.2 x.1 (List.mem_map_of_mem hx) k List.mem_cons_self).symm

/-- The entries of a map make it in any order. -/
theorem ofList_eq_of_perm {xs : List (String × α)} (h : xs.Perm m.entries) : ofList xs = m := by
  have hkeys : (xs.map Prod.fst).Nodup := (h.map Prod.fst).nodup_iff.2 m.nodup_keys
  refine eq_of_get? fun k => Option.ext fun v => ?_
  rw [get?_ofList, lookup_reverse hkeys, lookup_eq_some_iff_mem hkeys, h.mem_iff, mem_entries_iff]

theorem mem_of_mem_entries_ofList {xs : List (String × α)} {x : String × α}
    (h : x ∈ (ofList xs).entries) : x ∈ xs := by
  have hget := mem_entries_iff.1 h
  rw [get?_ofList] at hget
  exact List.mem_reverse.1 (mem_of_lookup hget)

end GraphRest.SortedMap
