/-!
# Maps in order of first mention

A map from texts to values that keeps its keys in the order in which they were first written. Writing
to a key again replaces the value and keeps the position.
-/

namespace GraphRest

/-- Pairs of key and value, in the order in which the keys were first written. -/
abbrev OrderedMap (α : Type) := List (String × α)

namespace OrderedMap

variable {α : Type}

def keys (m : OrderedMap α) : List String := List.map Prod.fst m

/-- The values, in the order of their keys. -/
def values (m : OrderedMap α) : List α := List.map Prod.snd m

def get? (k : String) : OrderedMap α → Option α
  | [] => none
  | (k', v) :: m => if k' = k then some v else get? k m

/-- Writes at `k` what `f` makes of the value that stands there now. -/
def upsert (k : String) (f : Option α → α) : OrderedMap α → OrderedMap α
  | [] => [(k, f none)]
  | (k', v) :: m => if k' = k then (k', f (some v)) :: m else (k', v) :: upsert k f m

def insert (k : String) (v : α) (m : OrderedMap α) : OrderedMap α :=
  upsert k (fun _ => v) m

def ofList (xs : List (String × α)) : OrderedMap α :=
  xs.foldl (fun m x => insert x.1 x.2 m) []

/-! ## Looking up what was written -/

theorem get?_upsert_self (k : String) (f : Option α → α) (m : OrderedMap α) :
    get? k (upsert k f m) = some (f (get? k m)) := by
  induction m with
  | nil => simp [upsert, get?]
  | cons x m ih => by_cases h : x.1 = k <;> simp [upsert, get?, h, ih]

theorem get?_upsert_of_ne {k k' : String} (h : k' ≠ k) (f : Option α → α) (m : OrderedMap α) :
    get? k' (upsert k f m) = get? k' m := by
  induction m with
  | nil => simp [upsert, get?, Ne.symm h]
  | cons x m ih =>
      by_cases hx : x.1 = k
      · simp [upsert, get?, hx, Ne.symm h]
      · by_cases hx' : x.1 = k' <;> simp [upsert, get?, hx, hx', ih, h]

/-! ## Keys -/

theorem mem_keys_iff {k : String} {m : OrderedMap α} : k ∈ keys m ↔ (get? k m).isSome := by
  induction m with
  | nil => simp [keys, get?]
  | cons x m ih =>
      by_cases h : x.1 = k
      · simp [keys, get?, h]
      · simp only [keys] at ih
        simp [keys, get?, h, ih, Ne.symm h]

theorem keys_upsert (k : String) (f : Option α → α) (m : OrderedMap α) :
    keys (upsert k f m) = if k ∈ keys m then keys m else keys m ++ [k] := by
  induction m with
  | nil => simp [upsert, keys]
  | cons x m ih =>
      by_cases h : x.1 = k
      · simp [upsert, keys, h]
      · simp only [keys] at ih
        by_cases hk : k ∈ List.map Prod.fst m <;> simp [upsert, keys, h, ih, hk, Ne.symm h]

end OrderedMap

end GraphRest
