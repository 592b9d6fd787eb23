import GraphRest.Data.OrderedMap
import GraphRest.Proofs.Data.Last

/-!
# What maps in order of first mention hold

Looking up a key agrees with membership as long as the keys are distinct. Pairs that are written one
after another leave each key where it was first written, with the value that was written to it last;
distinct keys leave just the list of the pairs. Keys can be renamed throughout, as long as they stay apart.
-/

namespace GraphRest.OrderedMap

variable {α : Type} {k : String} {v : α} {m : OrderedMap α}

theorem mem_of_get? (h : get? k m = some v) : (k, v) ∈ m := by
  induction m with
  | nil => simp [get?] at h
  | cons x m ih =>
      obtain ⟨k', v'⟩ := x
      rw [get?] at h
      split at h
      · rename_i hk
        cases h
        subst hk
        exact List.mem_cons_self
      · exact List.mem_cons_of_mem _ (ih h)

theorem get?_eq_some_iff_mem (hm : (keys m).Nodup) : get? k m = some v ↔ (k, v) ∈ m := by
  constructor
  · exact mem_of_get?
  · intro h
    induction m with
    | nil => cases h
    | cons x m ih =>
        obtain ⟨k', v'⟩ := x
        obtain ⟨hx, hm⟩ := List.nodup_cons.1 hm
        rw [get?]
        rcases List.mem_cons.1 h with heq | h
        · cases heq
          rw [if_pos rfl]
        · have hk : k ∈ List.map Prod.fst m := List.mem_map_of_mem h
          have hne : k' ≠ k := fun he => hx (he ▸ hk)
          rw [if_neg hne]
          exact ih hm h

/-- What a write leaves behind: the pair that it writes, and pairs that stood there before. -/
theorem mem_upsert {f : Option α → α} {x : String × α} (h : x ∈ upsert k f m) :
    x = (k, f (get? k m)) ∨ x ∈ m := by
  induction m with
  | nil => exact Or.inl (List.mem_singleton.1 h)
  | cons y m ih =>
      obtain ⟨k', v'⟩ := y
      rw [upsert] at h
      split at h
      · rename_i hk
        subst hk
        rcases List.mem_cons.1 h with rfl | h
        · left; rw [get?, if_pos rfl]
        · exact Or.inr (List.mem_cons_of_mem _ h)
      · rename_i hk
        rcases List.mem_cons.1 h with rfl | h
        · exact Or.inr List.mem_cons_self
        · rcases ih h with rfl | h
          · left; rw [get?, if_neg hk]
          · exact Or.inr (List.mem_cons_of_mem _ h)

theorem mem_keys_upsert {k' : String} {f : Option α → α} :
    k' ∈ keys (upsert k f m) ↔ k' ∈ keys m ∨ k' = k := by
  rw [keys_upsert]
  split
  · rename_i hk
    exact ⟨Or.inl, fun h => h.elim id fun he => he ▸ hk⟩
  · rw [List.mem_append, List.mem_singleton]

theorem insert_of_not_mem (h : k ∉ keys m) : insert k v m = m ++ [(k, v)] := by
  unfold insert
  induction m with
  | nil => rfl
  | cons x m ih =>
      obtain ⟨k', v'⟩ := x
      have hne : k' ≠ k := fun he => h (he ▸ List.mem_cons_self)
      rw [upsert, if_neg hne, ih fun hm => h (List.mem_cons_of_mem _ hm)]
      rfl

/-! ## Other keys -/

/-- A map with its keys renamed. -/
def mapKeys (rename : String → String) (m : OrderedMap α) : OrderedMap α :=
  m.map fun x => (rename x.1, x.2)

/-- A renaming that keeps keys apart can be done before or after a write. -/
theorem upsert_mapKeys {rename : String → String} (hr : Function.Injective rename)
    (f : Option α → α) (m : OrderedMap α) :
    upsert (rename k) f (mapKeys rename m) = mapKeys rename (upsert k f m) := by
  induction m with
  | nil => rfl
  | cons x m ih =>
      obtain ⟨k', v'⟩ := x
      by_cases hk : k' = k
      · simp [mapKeys, upsert, hk]
      · have hne : rename k' ≠ rename k := fun he => hk (hr he)
        simp only [mapKeys, List.map_cons, upsert, if_neg hne, if_neg hk, List.cons.injEq, true_and]
        exact ih

/-! ## The order of first mention -/

theorem eraseDups_concat (ks : List String) (k : String) :
    (ks ++ [k]).eraseDups = if k ∈ ks then ks.eraseDups else ks.eraseDups ++ [k] := by
  rw [List.eraseDups_append]
  by_cases h : k ∈ ks <;> simp [List.removeAll, h, List.eraseDups_cons]

theorem nodup_eraseDups (ks : List String) : ks.eraseDups.Nodup := by
  induction ks using List.reverseRecOn with
  | nil => exact List.nodup_nil
  | append_singleton ks k ih =>
      rw [eraseDups_concat]
      split
      · exact ih
      · rename_i hk
        have hnew : k ∉ ks.eraseDups := fun h => hk (List.mem_eraseDups.1 h)
        exact (List.perm_append_singleton k _).nodup_iff.2 (List.nodup_cons.2 ⟨hnew, ih⟩)

/-- Where each step mentions at most one key and puts a new one at the end, the keys behind a run stand in
the order of their first mention. -/
theorem foldl_eq_eraseDups {σ ι : Type} {step : σ → ι → σ} {key? : ι → Option String}
    (keysOf : σ → List String)
    (h : ∀ s i, keysOf (step s i) =
      (key? i).elim (keysOf s) fun k => if k ∈ keysOf s then keysOf s else keysOf s ++ [k])
    {s : σ} (hs : keysOf s = []) (is : List ι) :
    keysOf (is.foldl step s) = (is.filterMap key?).eraseDups := by
  induction is using List.reverseRecOn with
  | nil => exact hs
  | append_singleton is i ih =>
      rw [List.foldl_append, List.foldl_cons, List.foldl_nil, h, ih, List.filterMap_append]
      cases hi : key? i with
      | none => rw [List.filterMap_cons_none hi, List.filterMap_nil, List.append_nil]; rfl
      | some k =>
          rw [List.filterMap_cons_some hi, List.filterMap_nil, eraseDups_concat]
          simp only [Option.elim_some, List.mem_eraseDups]

/-! ## Writing pairs one after another -/

theorem foldl_insert_of_nodup (xs : List (String × α)) :
    ∀ m : OrderedMap α, (keys m ++ keys xs).Nodup →
      xs.foldl (fun m x => insert x.1 x.2 m) m = m ++ xs := by
  induction xs with
  | nil => intro m _; simp
  | cons x xs ih =>
      intro m h
      have hx : x.1 ∉ keys m := fun hm =>
        (List.nodup_append.1 h).2.2 _ hm _ List.mem_cons_self rfl
      rw [List.foldl_cons, insert_of_not_mem hx, ih]
      · simp
      · simpa [keys] using h

theorem ofList_of_nodup {xs : List (String × α)} (h : (keys xs).Nodup) : ofList xs = xs := by
  rw [ofList, foldl_insert_of_nodup _ _ (by simpa [keys] using h), List.nil_append]

theorem mem_foldl_insert {x : String × α} (xs : List (String × α)) :
    ∀ m : OrderedMap α, x ∈ xs.foldl (fun m x => insert x.1 x.2 m) m → x ∈ m ∨ x ∈ xs := by
  induction xs with
  | nil => exact fun _ h => Or.inl h
  | cons y xs ih =>
      intro m h
      rcases ih _ h with h | h
      · rcases mem_upsert h with rfl | h
        · exact Or.inr List.mem_cons_self
        · exact Or.inl h
      · exact Or.inr (List.mem_cons_of_mem _ h)

theorem mem_of_mem_ofList {x : String × α} {xs : List (String × α)} (h : x ∈ ofList xs) : x ∈ xs :=
  (mem_foldl_insert xs [] h).resolve_left List.not_mem_nil

theorem keys_ofList (xs : List (String × α)) : keys (ofList xs) = (keys xs).eraseDups := by
  have hkeys : keys xs = xs.filterMap (some ∘ Prod.fst) := (congrFun List.filterMap_eq_map xs).symm
  rw [hkeys]
  exact foldl_eq_eraseDups keys (fun m x => keys_upsert x.1 _ m) rfl xs

theorem nodup_keys_ofList (xs : List (String × α)) : (keys (ofList xs)).Nodup := by
  rw [keys_ofList]
  exact nodup_eraseDups _

theorem mem_keys_ofList {xs : List (String × α)} : k ∈ keys (ofList xs) ↔ k ∈ keys xs := by
  rw [keys_ofList, List.mem_eraseDups]

theorem get?_foldl_insert_of_absent {xs : List (String × α)} (h : ∀ x ∈ xs, x.1 ≠ k) :
    get? k (xs.foldl (fun m x => insert x.1 x.2 m) m) = get? k m := by
  induction xs generalizing m with
  | nil => rfl
  | cons x xs ih =>
      rw [List.foldl_cons, ih fun y hy => h y (List.mem_cons_of_mem _ hy), insert,
        get?_upsert_of_ne (h x List.mem_cons_self).symm]

/-- The last pair that is written to a key gives its value. -/
theorem get?_ofList {xs : List (String × α)} {x : String × α}
    (h : IsLast (fun x => x.1 = k) xs x) : get? k (ofList xs) = some x.2 := by
  obtain ⟨pre, post, rfl, rfl, hpost⟩ := h
  rw [ofList, List.foldl_append, List.foldl_cons, get?_foldl_insert_of_absent hpost, insert,
    get?_upsert_self]

end GraphRest.OrderedMap
