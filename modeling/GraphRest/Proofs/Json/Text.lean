import GraphRest.Json.Writer
import GraphRest.Proofs.Data.Tree
import GraphRest.Proofs.Json.Quoting

/-!
# Trees in JSON

A tree whose numbers are whole is told by its text. The first character tells what is written, quoted
texts and numbers end where their text says, and the items of a list and the fields of a map each stand
behind a line break of their own. So two texts with something behind them that continues no number are
the same characters only if the trees are the same.
-/

namespace GraphRest.Json

variable {depth : Nat} {r r' : List Char}

/-! ## What a text starts with -/

/-- What kind of value a text is of. -/
inductive Kind where
  | null
  | flag (b : Bool)
  | number
  | text
  | list
  | fields
  deriving DecidableEq

/-- The kind that the first character of a text tells. -/
def Kind.ofChar (c : Char) : Kind :=
  if c = 'n' then null
  else if c = 't' then flag true
  else if c = 'f' then flag false
  else if c = '"' then text
  else if c = '[' then list
  else if c = '{' then fields
  else number

def Kind.ofTree : Tree → Kind
  | .null => null
  | .bool b => flag b
  | .number _ => number
  | .text _ => text
  | .list _ => list
  | .fields _ => fields

theorem Kind.ofChar_of_isDigit {c : Char} (h : c.isDigit = true) : ofChar c = number := by
  have hne : ∀ c' : Char, c'.isDigit = false → c ≠ c' := by
    rintro c' hc' rfl
    exact absurd (h.symm.trans hc') (by decide)
  simp [ofChar, hne 'n' rfl, hne 't' rfl, hne 'f' rfl, hne '"' rfl, hne '[' rfl, hne '{' rfl]

theorem toList_toString (n : Nat) : (toString n).toList = Nat.toDigits 10 n := by
  rw [Nat.toString_eq_ofList_toDigits, String.toList_ofList]

theorem isDigit_of_mem_number {n : Nat} {c : Char} (h : c ∈ Nat.toDigits 10 n) : c.isDigit = true :=
  Nat.isDigit_of_mem_toDigits (by decide) (by decide) h

theorem exists_pretty_eq_cons : ∀ {t : Tree}, t.bounds = [] → ∀ depth,
    ∃ c w, pretty depth t = c :: w ∧ Kind.ofChar c = Kind.ofTree t
  | .null, h, _ => by simp at h
  | .bool true, _, _ => ⟨_, _, rfl, rfl⟩
  | .bool false, _, _ => ⟨_, _, rfl, rfl⟩
  | .number (.double _), h, _ => by simp at h
  | .number (.whole n), _, depth => by
    cases hw : Nat.toDigits 10 n with
    | nil => exact absurd hw Nat.toDigits_ne_nil
    | cons c w =>
        have hdigit : c.isDigit = true :=
          isDigit_of_mem_number (hw ▸ List.mem_cons_self)
        exact ⟨c, w, by rw [pretty, number, toList_toString, hw], Kind.ofChar_of_isDigit hdigit⟩
  | .text _, _, _ => ⟨_, _, rfl, rfl⟩
  | .list [], _, _ => ⟨_, _, rfl, rfl⟩
  | .list (_ :: _), _, _ => ⟨_, _, rfl, rfl⟩
  | .fields [], _, _ => ⟨_, _, rfl, rfl⟩
  | .fields ((_, _) :: _), _, _ => ⟨_, _, rfl, rfl⟩

theorem kind_eq {t t' : Tree} (ht : t.bounds = []) (ht' : t'.bounds = [])
    (h : pretty depth t ++ r = pretty depth t' ++ r') : Kind.ofTree t = Kind.ofTree t' := by
  obtain ⟨c, w, hw, hkind⟩ := exists_pretty_eq_cons ht depth
  obtain ⟨c', w', hw', hkind'⟩ := exists_pretty_eq_cons ht' depth
  rw [hw, hw'] at h
  rw [← hkind, ← hkind', (List.cons.inj h).1]

/-! ## Numbers -/

/-- A text that does not continue a number. -/
def EndsNumber (r : List Char) : Prop := ∀ c ∈ r.head?, c.isDigit = false

theorem takeWhile_isDigit_append {w : List Char} (hw : ∀ c ∈ w, c.isDigit = true)
    (hr : EndsNumber r) : (w ++ r).takeWhile Char.isDigit = w := by
  have hend : r.takeWhile Char.isDigit = [] := by
    cases r with
    | nil => rfl
    | cons c r => exact List.takeWhile_cons_of_neg (by rw [hr c rfl]; decide)
  rw [List.takeWhile_append_of_pos hw, hend, List.append_nil]

theorem whole_append_inj {n n' : Nat} (hr : EndsNumber r) (hr' : EndsNumber r')
    (h : number (.whole n) ++ r = number (.whole n') ++ r') : n = n' ∧ r = r' := by
  simp only [number, toList_toString] at h
  have hsame : Nat.toDigits 10 n = Nat.toDigits 10 n' := by
    rw [← takeWhile_isDigit_append (fun _ => isDigit_of_mem_number) hr, h,
      takeWhile_isDigit_append (fun _ => isDigit_of_mem_number) hr']
  refine ⟨?_, List.append_cancel_left (hsame ▸ h)⟩
  rw [← Nat.ofDigitChars_ten_toDigits (n := n), hsame, Nat.ofDigitChars_ten_toDigits]

/-! ## Lists and fields -/

theorem endsNumber_items (ts : List Tree) (depth' : Nat) (r : List Char) :
    EndsNumber (prettyItems depth ts ++ (newline depth' ++ r)) := by
  cases ts <;> rintro c ⟨⟩ <;> rfl

theorem endsNumber_fields (es : List (String × Tree)) (depth' : Nat) (r : List Char) :
    EndsNumber (prettyFields depth es ++ (newline depth' ++ r)) := by
  cases es <;> rintro c ⟨⟩ <;> rfl

mutual

theorem pretty_append_inj : ∀ {t t' : Tree} {depth : Nat} {r r' : List Char},
    t.bounds = [] → t'.bounds = [] → EndsNumber r → EndsNumber r' →
      pretty depth t ++ r = pretty depth t' ++ r' → t = t' ∧ r = r'
  | .null, _, _, _, _, ht, _, _, _, _ => by simp at ht
  | .number (.double _), _, _, _, _, ht, _, _, _, _ => by simp at ht
  | .bool b, t', _, _, _, ht, ht', _, _, h => by
    match t', kind_eq ht ht' h with
    | .bool _, rfl => exact ⟨rfl, List.append_cancel_left h⟩
  | .number (.whole n), t', _, _, _, ht, ht', hr, hr', h => by
    match t', kind_eq ht ht' h with
    | .number (.whole n'), _ =>
        simp only [pretty] at h
        obtain ⟨rfl, hrest⟩ := whole_append_inj hr hr' h
        exact ⟨rfl, hrest⟩
    | .number (.double _), _ => simp at ht'
  | .text s, t', _, _, _, ht, ht', _, _, h => by
    match t', kind_eq ht ht' h with
    | .text s', _ =>
        simp only [pretty] at h
        obtain ⟨rfl, hrest⟩ := quote_append_inj h
        exact ⟨rfl, hrest⟩
  | .list [], t', _, _, _, ht, ht', _, _, h => by
    match t', kind_eq ht ht' h with
    | .list [], _ => exact ⟨rfl, List.append_cancel_left h⟩
    | .list (_ :: _), _ => simp [pretty, newline] at h
  | .list (t :: ts), t', _, _, _, ht, ht', _, _, h => by
    match t', kind_eq ht ht' h with
    | .list [], _ => simp [pretty, newline] at h
    | .list (u :: us), _ =>
        simp only [Tree.bounds_list, Tree.itemBounds_cons, List.append_eq_nil_iff] at ht ht'
        simp only [pretty, List.append_assoc, List.cons_append, List.cons.injEq, true_and,
          List.append_cancel_left_eq] at h
        obtain ⟨rfl, hitems⟩ := pretty_append_inj ht.1 ht'.1 (endsNumber_items _ _ _)
          (endsNumber_items _ _ _) h
        obtain ⟨rfl, hrest⟩ := prettyItems_append_inj ht.2 ht'.2 hitems
        exact ⟨rfl, (List.cons.inj hrest).2⟩
  | .fields [], t', _, _, _, ht, ht', _, _, h => by
    match t', kind_eq ht ht' h with
    | .fields [], _ => exact ⟨rfl, List.append_cancel_left h⟩
    | .fields (_ :: _), _ => simp [pretty, newline] at h
  | .fields ((k, t) :: es), t', _, _, _, ht, ht', _, _, h => by
    match t', kind_eq ht ht' h with
    | .fields [], _ => simp [pretty, newline] at h
    | .fields ((k', u) :: es'), _ =>
        simp only [Tree.bounds_fields, Tree.entryBounds_cons, List.append_eq_nil_iff] at ht ht'
        simp only [pretty, List.append_assoc, List.cons_append, List.cons.injEq, true_and,
          List.append_cancel_left_eq] at h
        obtain ⟨rfl, hvalue⟩ := quote_append_inj h
        simp only [List.cons.injEq, true_and] at hvalue
        obtain ⟨rfl, hfields⟩ := pretty_append_inj ht.1 ht'.1 (endsNumber_fields _ _ _)
          (endsNumber_fields _ _ _) hvalue
        obtain ⟨rfl, hrest⟩ := prettyFields_append_inj ht.2 ht'.2 hfields
        exact ⟨rfl, (List.cons.inj hrest).2⟩

theorem prettyItems_append_inj : ∀ {ts ts' : List Tree} {depth depth' : Nat} {r r' : List Char},
    Tree.itemBounds ts = [] → Tree.itemBounds ts' = [] →
      prettyItems depth ts ++ (newline depth' ++ r) = prettyItems depth ts' ++ (newline depth' ++ r') →
        ts = ts' ∧ r = r'
  | [], [], _, _, _, _, _, _, h => ⟨rfl, List.append_cancel_left h⟩
  | [], _ :: _, _, _, _, _, _, _, h => by simp [prettyItems, newline] at h
  | _ :: _, [], _, _, _, _, _, _, h => by simp [prettyItems, newline] at h
  | t :: ts, u :: us, _, _, _, _, ht, ht', h => by
    simp only [Tree.itemBounds_cons, List.append_eq_nil_iff] at ht ht'
    simp only [prettyItems, List.append_assoc, List.cons_append, List.cons.injEq, true_and,
      List.append_cancel_left_eq] at h
    obtain ⟨rfl, hitems⟩ := pretty_append_inj ht.1 ht'.1 (endsNumber_items _ _ _)
      (endsNumber_items _ _ _) h
    obtain ⟨rfl, hrest⟩ := prettyItems_append_inj ht.2 ht'.2 hitems
    exact ⟨rfl, hrest⟩

theorem prettyFields_append_inj : ∀ {es es' : List (String × Tree)} {depth depth' : Nat}
    {r r' : List Char}, Tree.entryBounds es = [] → Tree.entryBounds es' = [] →
      prettyFields depth es ++ (newline depth' ++ r) =
        prettyFields depth es' ++ (newline depth' ++ r') → es = es' ∧ r = r'
  | [], [], _, _, _, _, _, _, h => ⟨rfl, List.append_cancel_left h⟩
  | [], (_, _) :: _, _, _, _, _, _, _, h => by simp [prettyFields, newline] at h
  | (_, _) :: _, [], _, _, _, _, _, _, h => by simp [prettyFields, newline] at h
  | (k, t) :: es, (k', u) :: es', _, _, _, _, ht, ht', h => by
    simp only [Tree.entryBounds_cons, List.append_eq_nil_iff] at ht ht'
    simp only [prettyFields, List.append_assoc, List.cons_append, List.cons.injEq, true_and,
      List.append_cancel_left_eq] at h
    obtain ⟨rfl, hvalue⟩ := quote_append_inj h
    simp only [List.cons.injEq, true_and] at hvalue
    obtain ⟨rfl, hfields⟩ := pretty_append_inj ht.1 ht'.1 (endsNumber_fields _ _ _)
      (endsNumber_fields _ _ _) hvalue
    obtain ⟨rfl, hrest⟩ := prettyFields_append_inj ht.2 ht'.2 hfields
    exact ⟨rfl, hrest⟩

end

/-- Trees whose numbers are whole are the same if their texts are. -/
theorem prettyText_inj {t t' : Tree} (ht : t.bounds = []) (ht' : t'.bounds = [])
    (h : prettyText t = prettyText t') : t = t' := by
  have hend : EndsNumber [] := by rintro c ⟨⟩
  have htexts : pretty 0 t ++ [] = pretty 0 t' ++ [] := by
    rw [List.append_nil, List.append_nil, ← String.toList_ofList (l := pretty 0 t)]
    exact (congrArg String.toList h).trans String.toList_ofList
  exact (pretty_append_inj ht ht' hend hend htexts).1

end GraphRest.Json
