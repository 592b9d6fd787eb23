import GraphRest.Tree

/-!
# Data trees

What stands at a key of a tree, and what is picked out of the scalars in a tree: its references and its
bounds. Both are told of each of the ways in which the fields of a tree are put together.
-/

namespace GraphRest.Tree

variable {α : Type} {key key' : String}

/-! ## What stands at a key -/

@[simp] theorem lookup_field_self (t : Tree) : (field key t).lookup key = some t := by
  simp [field]

@[simp] theorem lookup_field_of_ne (h : key' ≠ key) (t : Tree) : (field key t).lookup key' = none := by
  simp [field, List.lookup_cons, beq_false_of_ne h]

@[simp] theorem lookup_optional_self (encode : α → Tree) (a : Option α) :
    (optional key encode a).lookup key = a.map encode := by
  cases a <;> simp [optional]

@[simp] theorem lookup_optional_of_ne (h : key' ≠ key) (encode : α → Tree) (a : Option α) :
    (optional key encode a).lookup key' = none := by
  cases a <;> simp [optional, List.lookup_cons, beq_false_of_ne h]

@[simp] theorem lookup_flag_self (b : Bool) :
    (flag key b).lookup key = if b then some (bool true) else none := by
  cases b <;> simp [flag]

@[simp] theorem lookup_flag_of_ne (h : key' ≠ key) (b : Bool) : (flag key b).lookup key' = none := by
  cases b <;> simp [flag, List.lookup_cons, beq_false_of_ne h]

@[simp] theorem lookup_nonEmptyList_self (ts : List Tree) :
    (nonEmptyList key ts).lookup key = if ts = [] then none else some (list ts) := by
  cases ts <;> simp [nonEmptyList]

@[simp] theorem lookup_nonEmptyList_of_ne (h : key' ≠ key) (ts : List Tree) :
    (nonEmptyList key ts).lookup key' = none := by
  cases ts <;> simp [nonEmptyList, List.lookup_cons, beq_false_of_ne h]

@[simp] theorem lookup_nonEmptyFields_self (es : List (String × Tree)) :
    (nonEmptyFields key es).lookup key = if es = [] then none else some (fields es) := by
  cases es <;> simp [nonEmptyFields]

@[simp] theorem lookup_nonEmptyFields_of_ne (h : key' ≠ key) (es : List (String × Tree)) :
    (nonEmptyFields key es).lookup key' = none := by
  cases es <;> simp [nonEmptyFields, List.lookup_cons, beq_false_of_ne h]

/-! ## What is picked out of scalars -/

mutual

/-- What is picked out of the scalars in a tree, at any depth, each seen with the key that it stands at.
The items of lists stand at none. -/
def collect (pick : Option String → Tree → List α) (key : Option String) : Tree → List α
  | list items => collectItems pick items
  | fields entries => collectEntries pick entries
  | t => pick key t

/-- What is picked out of the items of a list. -/
def collectItems (pick : Option String → Tree → List α) : List Tree → List α
  | [] => []
  | t :: ts => collect pick none t ++ collectItems pick ts

/-- What is picked out of fields. -/
def collectEntries (pick : Option String → Tree → List α) : List (String × Tree) → List α
  | [] => []
  | (key, t) :: es => collect pick (some key) t ++ collectEntries pick es

end

/-- Nothing is picked out of flags and whole numbers, and of texts only those at `$ref`. -/
structure Sparse (pick : Option String → Tree → List α) : Prop where
  text : ∀ key s, key ≠ some "$ref" → pick key (text s) = []
  bool : ∀ key b, pick key (bool b) = []
  whole : ∀ key n, pick key (number (.whole n)) = []

variable {pick : Option String → Tree → List α} {β : Type}

theorem collectEntries_append (es es' : List (String × Tree)) :
    collectEntries pick (es ++ es') = collectEntries pick es ++ collectEntries pick es' := by
  induction es with
  | nil => simp [collectEntries]
  | cons e es ih =>
      obtain ⟨key, t⟩ := e
      simp [collectEntries, ih]

theorem collectItems_eq_flatMap (ts : List Tree) :
    collectItems pick ts = ts.flatMap (collect pick none) := by
  induction ts with
  | nil => simp [collectItems]
  | cons t ts ih => simp [collectItems, ih]

theorem collectEntries_field (t : Tree) :
    collectEntries pick (field key t) = collect pick (some key) t := by
  simp [field, collectEntries]

theorem collectEntries_optional (encode : β → Tree) (b : Option β) :
    collectEntries pick (optional key encode b) =
      b.toList.flatMap fun x => collect pick (some key) (encode x) := by
  cases b <;> simp [optional, collectEntries]

theorem collectEntries_nonEmptyList (ts : List Tree) :
    collectEntries pick (nonEmptyList key ts) = collectItems pick ts := by
  cases ts <;> simp [nonEmptyList, collectEntries, collectItems, collect]

theorem collectEntries_nonEmptyFields (es : List (String × Tree)) :
    collectEntries pick (nonEmptyFields key es) = collectEntries pick es := by
  cases es <;> simp [nonEmptyFields, collectEntries, collect]

theorem collectEntries_map (pick : Option String → Tree → List α) (key : β → String) (t : β → Tree)
    (xs : List β) : collectEntries pick (xs.map fun x => (key x, t x)) =
      xs.flatMap fun x => collect pick (some (key x)) (t x) := by
  induction xs with
  | nil => simp [collectEntries]
  | cons x xs ih => simp [collectEntries, ih]

namespace Sparse

theorem collectEntries_flag (h : Sparse pick) (b : Bool) :
    collectEntries pick (flag key b) = [] := by
  cases b <;> simp [flag, collectEntries, collect, h.bool]

theorem collectEntries_text (h : Sparse pick) (hkey : key ≠ "$ref") (s : String) :
    collectEntries pick (field key (.text s)) = [] := by
  simp [collectEntries_field, collect, h.text (some key) s (by simpa using hkey)]

theorem collectEntries_texts (h : Sparse pick) (hkey : key ≠ "$ref") (word : β → String)
    (b : Option β) : collectEntries pick (optional key (fun x => .text (word x)) b) = [] := by
  cases b with
  | none => rfl
  | some x => exact h.collectEntries_text hkey (word x)

theorem collectEntries_whole (h : Sparse pick) (n : Option Nat) :
    collectEntries pick (optional key Tree.whole n) = [] := by
  cases n <;> simp [collectEntries_optional, Tree.whole, collect, h.whole]

theorem collectItems_texts (h : Sparse pick) (ss : List String) :
    collectItems pick (ss.map .text) = [] := by
  rw [collectItems_eq_flatMap, List.flatMap_map, List.flatMap_eq_nil_iff]
  exact fun s _ => by simp [collect, h.text none s nofun]

end Sparse

/-! ## References and bounds -/

/-- The text of a scalar, if it stands at `$ref`. -/
def pickReference : Option String → Tree → List String
  | some key, text s => if key = "$ref" then [s] else []
  | _, _ => []

/-- The texts at `$ref` in a tree, at any depth. -/
def refs (t : Tree) : List String := t.collect pickReference none

theorem sparse_pickReference : Sparse pickReference where
  text key s h := by cases key <;> simp_all [pickReference]
  bool key b := by cases key <;> rfl
  whole key n := by cases key <;> rfl

/-- A scalar that is neither a text, a flag nor a whole number. -/
def pickBound (_ : Option String) : Tree → List Tree
  | null => [null]
  | number (.double d) => [number (.double d)]
  | _ => []

/-- The scalars in a tree, at any depth, that are neither texts, flags nor whole numbers. -/
def bounds (t : Tree) : List Tree := t.collect pickBound none

/-- The bounds in the items of a list. -/
def itemBounds (ts : List Tree) : List Tree := collectItems pickBound ts

/-- The bounds in fields. -/
def entryBounds (es : List (String × Tree)) : List Tree := collectEntries pickBound es

theorem sparse_pickBound : Sparse pickBound where
  text _ _ _ := rfl
  bool _ _ := rfl
  whole _ _ := rfl

@[simp] theorem bounds_null : null.bounds = [null] := rfl

@[simp] theorem bounds_bool (b : Bool) : (bool b).bounds = [] := rfl

@[simp] theorem bounds_whole (n : Nat) : (number (.whole n)).bounds = [] := rfl

@[simp] theorem bounds_double (d : Double) :
    (number (.double d)).bounds = [number (.double d)] := rfl

@[simp] theorem bounds_text (s : String) : (text s).bounds = [] := rfl

@[simp] theorem bounds_list (ts : List Tree) : (list ts).bounds = itemBounds ts := rfl

@[simp] theorem bounds_fields (es : List (String × Tree)) : (fields es).bounds = entryBounds es := rfl

@[simp] theorem itemBounds_nil : itemBounds [] = [] := rfl

@[simp] theorem itemBounds_cons (t : Tree) (ts : List Tree) :
    itemBounds (t :: ts) = t.bounds ++ itemBounds ts := rfl

@[simp] theorem entryBounds_nil : entryBounds [] = [] := rfl

@[simp] theorem entryBounds_cons (key : String) (t : Tree) (es : List (String × Tree)) :
    entryBounds ((key, t) :: es) = t.bounds ++ entryBounds es := by
  cases t <;> rfl

end GraphRest.Tree
