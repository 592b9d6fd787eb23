/-!
# Maps in byte order

A map from texts to values whose keys stand in byte order. Texts compare character by character,
which is the order of their UTF-8 bytes. The order is part of the type, so equal contents make equal
maps.
-/

namespace GraphRest

/-- Pairs of key and value with the keys strictly increasing. -/
structure SortedMap (α : Type) where
  entries : List (String × α)
  sorted : entries.Pairwise (fun x y => x.1 < y.1)

namespace SortedMap

variable {α : Type}

@[ext] theorem ext {m n : SortedMap α} (h : m.entries = n.entries) : m = n := by
  cases m
  cases n
  cases h
  rfl

instance [DecidableEq α] : DecidableEq (SortedMap α) := fun m n =>
  decidable_of_iff (m.entries = n.entries) ⟨ext, fun h => h ▸ rfl⟩

def empty : SortedMap α := ⟨[], .nil⟩

instance : Inhabited (SortedMap α) := ⟨empty⟩

def keys (m : SortedMap α) : List String := m.entries.map Prod.fst

def get? (m : SortedMap α) (k : String) : Option α :=
  (m.entries.find? (·.1 = k)).map Prod.snd

/-- Writes at `k` what `f` makes of the value that stands there now, keeping the order. -/
def upsertEntries (k : String) (f : Option α → α) : List (String × α) → List (String × α)
  | [] => [(k, f none)]
  | (k', v) :: m =>
      if k = k' then (k', f (some v)) :: m
      else if k < k' then (k, f none) :: (k', v) :: m
      else (k', v) :: upsertEntries k f m

theorem mem_keys_upsertEntries {k k' : String} {f : Option α → α} {m : List (String × α)} :
    k' ∈ (upsertEntries k f m).map Prod.fst ↔ k' = k ∨ k' ∈ m.map Prod.fst := by
  induction m with
  | nil => simp [upsertEntries]
  | cons x m ih =>
      rw [upsertEntries]
      split
      · simp_all
      · split
        · simp
        · simp only [List.map_cons, List.mem_cons, ih]
          constructor <;> rintro (h | h | h) <;> simp [h]

theorem pairwise_upsertEntries (k : String) (f : Option α → α) {m : List (String × α)}
    (h : m.Pairwise (fun x y => x.1 < y.1)) :
    (upsertEntries k f m).Pairwise (fun x y => x.1 < y.1) := by
  induction m with
  | nil => simp [upsertEntries]
  | cons x m ih =>
      rw [List.pairwise_cons] at h
      rw [upsertEntries]
      split
      · exact List.pairwise_cons.2 ⟨h.1, h.2⟩
      · rename_i hne
        split
        · rename_i hlt
          refine List.pairwise_cons.2 ⟨?_, List.pairwise_cons.2 h⟩
          intro y hy
          rcases List.mem_cons.1 hy with rfl | hy
          · exact hlt
          · exact String.lt_trans hlt (h.1 y hy)
        · rename_i hnlt
          refine List.pairwise_cons.2 ⟨?_, ih h.2⟩
          intro y hy
          have hmem : y.1 ∈ (upsertEntries k f m).map Prod.fst := List.mem_map_of_mem hy
          rcases mem_keys_upsertEntries.1 hmem with heq | hin
          · rw [heq]
            rcases String.le_total k x.1 with hle | hle
            · exact absurd (String.le_antisymm hle (String.not_lt.1 hnlt)) hne
            · exact Decidable.byContradiction fun hn =>
                hne (String.le_antisymm (String.not_lt.1 hn) hle)
          · obtain ⟨z, hz, hzy⟩ := List.mem_map.1 hin
            exact hzy ▸ h.1 z hz

/-- Writes at `k` what `f` makes of the value that stands there now. -/
def upsert (m : SortedMap α) (k : String) (f : Option α → α) : SortedMap α :=
  ⟨upsertEntries k f m.entries, pairwise_upsertEntries k f m.sorted⟩

def insert (m : SortedMap α) (k : String) (v : α) : SortedMap α :=
  m.upsert k fun _ => v

/-- Writes pairs one after another, so that the last of several with one key remains. -/
def ofList (xs : List (String × α)) : SortedMap α :=
  xs.foldl (fun m x => m.insert x.1 x.2) empty

/-- All entries of both maps; those of `n` win. -/
def override (m n : SortedMap α) : SortedMap α :=
  n.entries.foldl (fun m x => m.insert x.1 x.2) m

/-- Changes every value by a function of its key and itself; keys and order stay. -/
def mapValues (f : String → α → α) (m : SortedMap α) : SortedMap α :=
  ⟨m.entries.map fun x => (x.1, f x.1 x.2), by
    rw [List.pairwise_map]
    exact m.sorted⟩

end SortedMap

end GraphRest
