import GraphRest.Proofs.Data.Tree
import GraphRest.Proofs.Json.Number
import GraphRest.Proofs.Json.Quoting

/-!
# Outside of quotes

What of a JSON text stands outside of quotes is marks, numbers and the words `true`, `false` and `null`.
The text of a tree has the word `null` there exactly if the tree has a scalar that is written so.
-/

namespace GraphRest.Json

/-! ## Reading over quotes -/

/-- Where a character stands: outside of quotes, inside of them, or behind a backslash there. -/
inductive Place where
  | plain
  | quoted
  | escaped

/-- The characters of a text that stand outside of quotes. -/
def outside : Place → List Char → List Char
  | _, [] => []
  | .plain, c :: s => if c = '"' then outside .quoted s else c :: outside .plain s
  | .quoted, c :: s =>
      if c = '"' then outside .plain s
      else if c = '\\' then outside .escaped s
      else outside .quoted s
  | .escaped, _ :: s => outside .quoted s

/-- Whether a text has a null: the word stands outside of quotes. -/
def HasNull (text : String) : Prop := ['n', 'u', 'l', 'l'] <:+: outside .plain text.toList

instance (text : String) : Decidable (HasNull text) := inferInstanceAs (Decidable (_ <:+: _))

variable {w r : List Char} {P Q : Prop}

theorem outside_append_of_unquoted (h : '"' ∉ w) (r : List Char) :
    outside .plain (w ++ r) = w ++ outside .plain r := by
  induction w with
  | nil => rfl
  | cons c w ih =>
      simp only [List.mem_cons, not_or] at h
      rw [List.cons_append, outside, if_neg (Ne.symm h.1), ih h.2, List.cons_append]

theorem outside_written {c : Char} (h : Written c w) (r : List Char) :
    outside .quoted (w ++ r) = outside .quoted r := by
  cases h with
  | plain hquote hslash _ =>
      rw [List.singleton_append, outside, if_neg hquote, if_neg hslash]
  | letter _ => rfl
  | code hlow =>
      have hhex : ∀ n < 16, hexDigit n ≠ '"' ∧ hexDigit n ≠ '\\' := by decide
      obtain ⟨hq, hs⟩ := hhex (c.toNat / 16) (by omega)
      obtain ⟨hq', hs'⟩ := hhex (c.toNat % 16) (by omega)
      simp [outside, hq, hs, hq', hs']

theorem outside_quote (s : String) (r : List Char) :
    outside .plain (quote s ++ r) = outside .plain r := by
  have hbody (cs : List Char) : outside .quoted (cs.flatMap escape ++ '"' :: r) = outside .plain r := by
    induction cs with
    | nil => rfl
    | cons c cs ih => rw [List.flatMap_cons, List.append_assoc, outside_written (written_escape c), ih]
  have hquote : quote s ++ r = '"' :: (s.toList.flatMap escape ++ '"' :: r) := by simp [quote]
  rw [hquote]
  exact hbody s.toList

/-! ## Nulls in a part of a text -/

/-- A part of a text closes its quotes, and outside of them it has the letter `n` only if `P` holds, and
then the whole word `null`. -/
structure Shows (w : List Char) (P : Prop) : Prop where
  closed : ∀ r, outside .plain (w ++ r) = outside .plain w ++ outside .plain r
  of_mem : 'n' ∈ outside .plain w → P
  infix_of : P → ['n', 'u', 'l', 'l'] <:+: outside .plain w

theorem Shows.append {w' : List Char} (h : Shows w P) (h' : Shows w' Q) : Shows (w ++ w') (P ∨ Q) where
  closed r := by rw [List.append_assoc, h.closed, h'.closed, h.closed, List.append_assoc]
  of_mem hmem := by
    rw [h.closed] at hmem
    exact (List.mem_append.1 hmem).imp h.of_mem h'.of_mem
  infix_of hPQ := by
    rw [h.closed]
    rcases hPQ with hP | hQ
    · exact (h.infix_of hP).trans (List.prefix_append _ _).isInfix
    · exact (h'.infix_of hQ).trans (List.suffix_append _ _).isInfix

theorem Shows.congr (h : Shows w P) (hPQ : P ↔ Q) : Shows w Q where
  closed := h.closed
  of_mem hmem := hPQ.1 (h.of_mem hmem)
  infix_of hQ := h.infix_of (hPQ.2 hQ)

theorem Shows.after {w' : List Char} (h : Shows w' P) (hw : Shows w False) : Shows (w ++ w') P :=
  (hw.append h).congr (by simp)

theorem Shows.before {w' : List Char} (h : Shows w P) (hw : Shows w' False) : Shows (w ++ w') P :=
  (h.append hw).congr (by simp)

theorem shows_of_unquoted (h : '"' ∉ w) (hn : 'n' ∉ w) : Shows w False where
  closed r := by
    rw [outside_append_of_unquoted h, ← List.append_nil w, outside_append_of_unquoted h, outside,
      List.append_nil]
  of_mem hmem := by
    rw [← List.append_nil w, outside_append_of_unquoted h, outside, List.append_nil] at hmem
    exact hn hmem
  infix_of := nofun

theorem shows_quote (s : String) : Shows (quote s) False where
  closed r := by
    rw [outside_quote, ← List.append_nil (quote s), outside_quote, outside, List.nil_append]
  of_mem hmem := by
    rw [← List.append_nil (quote s), outside_quote] at hmem
    cases hmem
  infix_of := nofun

theorem shows_null : Shows ['n', 'u', 'l', 'l'] True where
  closed r := outside_append_of_unquoted (by decide) r
  of_mem _ := trivial
  infix_of _ := List.infix_refl _

theorem shows_number {w : List Char} (h : IsNumber w) : Shows w False :=
  shows_of_unquoted (fun hq => absurd (h.isNumberChar _ hq) (by decide))
    fun hn => absurd (h.isNumberChar _ hn) (by decide)

theorem shows_bool (b : Bool) : Shows (bool b) False := by
  cases b
  · exact shows_of_unquoted (by decide) (by decide)
  · exact shows_of_unquoted (by decide) (by decide)

theorem shows_newline (depth : Nat) : Shows (newline depth) False :=
  shows_of_unquoted (by simp [newline, List.mem_replicate]) (by simp [newline, List.mem_replicate])

/-! ## Nulls in the text of a tree -/

/-- Whether a scalar is written as `null`. -/
def isNull : Tree → Bool
  | .null => true
  | .number (.double d) => !d.isFinite
  | _ => false

/-- The finite bounds among scalars are doubles. -/
def BoundsInRange (ts : List Tree) : Prop :=
  ∀ n m e, Tree.number (.double (.finite n m e)) ∈ ts → Double.InRange m e

def HoldsNull (ts : List Tree) : Prop := ∃ t ∈ ts, isNull t = true

theorem BoundsInRange.append_left {ts ts' : List Tree} (h : BoundsInRange (ts ++ ts')) :
    BoundsInRange ts := fun n m e hmem => h n m e (List.mem_append_left _ hmem)

theorem BoundsInRange.append_right {ts ts' : List Tree} (h : BoundsInRange (ts ++ ts')) :
    BoundsInRange ts' := fun n m e hmem => h n m e (List.mem_append_right _ hmem)

theorem holdsNull_append {ts ts' : List Tree} :
    HoldsNull (ts ++ ts') ↔ HoldsNull ts ∨ HoldsNull ts' := by
  simp only [HoldsNull, List.mem_append, or_and_right, exists_or]

theorem holdsNull_nil : HoldsNull [] ↔ False := by simp [HoldsNull]

theorem shows_double {d : Double} (h : ∀ n m e, d = .finite n m e → Double.InRange m e) :
    Shows (number (.double d)) (d.isFinite = false) := by
  cases d with
  | finite n m e => exact (shows_number (isNumber_finite (h n m e rfl) n)).congr (by simp [Double.isFinite])
  | infinite n => exact shows_null.congr (by simp [Double.isFinite])
  | nan => exact shows_null.congr (by simp [Double.isFinite])

theorem shows_mark {c : Char} (hquote : c ≠ '"') (hn : c ≠ 'n') : Shows [c] False :=
  shows_of_unquoted (by simp [hquote.symm]) (by simp [hn.symm])

/-- A key with what stands around it. -/
theorem shows_key (k : String) {w : List Char} (h : Shows w P) : Shows (quote k ++ ':' :: ' ' :: w) P :=
  ((h.after (shows_mark (by decide) (by decide))).after
    (shows_mark (by decide) (by decide))).after (shows_quote k)

mutual

theorem shows_pretty : ∀ (t : Tree) (depth : Nat), BoundsInRange t.bounds →
    Shows (pretty depth t) (HoldsNull t.bounds)
  | .null, _, _ => by
    rw [pretty]
    exact shows_null.congr (by simp [HoldsNull, isNull])
  | .bool b, _, _ => by
    rw [pretty]
    exact (shows_bool b).congr (by simp [HoldsNull])
  | .number (.whole n), _, _ => by
    rw [pretty]
    exact (shows_number (isNumber_whole n)).congr (by simp [HoldsNull])
  | .number (.double d), _, h => by
    rw [pretty]
    refine (shows_double fun n m e hd => h n m e ?_).congr (by simp [HoldsNull, isNull])
    rw [Tree.bounds_double, hd]
    exact List.mem_singleton_self _
  | .text s, _, _ => by
    rw [pretty]
    exact (shows_quote s).congr (by simp [HoldsNull])
  | .list [], _, _ => by
    rw [pretty, Tree.bounds_list, Tree.itemBounds_nil]
    exact (shows_of_unquoted (by decide) (by decide)).congr holdsNull_nil.symm
  | .list (t :: ts), depth, h => by
    rw [Tree.bounds_list, Tree.itemBounds_cons] at h
    rw [pretty, Tree.bounds_list, Tree.itemBounds_cons]
    have hopen := (shows_newline (depth + 1)).after (shows_mark (c := '[') (by decide) (by decide))
    have hitems := ((shows_pretty t (depth + 1) h.append_left).after hopen).append
      (shows_prettyItems ts (depth + 1) h.append_right)
    exact ((hitems.before (shows_newline depth)).before
      (shows_mark (by decide) (by decide))).congr holdsNull_append.symm
  | .fields [], _, _ => by
    rw [pretty, Tree.bounds_fields, Tree.entryBounds_nil]
    exact (shows_of_unquoted (by decide) (by decide)).congr holdsNull_nil.symm
  | .fields ((k, t) :: es), depth, h => by
    rw [Tree.bounds_fields, Tree.entryBounds_cons] at h
    rw [pretty, Tree.bounds_fields, Tree.entryBounds_cons]
    have hopen := (shows_newline (depth + 1)).after (shows_mark (c := '\x7b') (by decide) (by decide))
    have hfields := ((shows_key k (shows_pretty t (depth + 1) h.append_left)).after hopen).append
      (shows_prettyFields es (depth + 1) h.append_right)
    have htext := ((hfields.before (shows_newline depth)).before
      (shows_mark (c := '\x7d') (by decide) (by decide))).congr holdsNull_append.symm
    simpa using htext

theorem shows_prettyItems : ∀ (ts : List Tree) (depth : Nat), BoundsInRange (Tree.itemBounds ts) →
    Shows (prettyItems depth ts) (HoldsNull (Tree.itemBounds ts))
  | [], _, _ => by
    rw [prettyItems, Tree.itemBounds_nil]
    exact (shows_of_unquoted (by decide) (by decide)).congr holdsNull_nil.symm
  | t :: ts, depth, h => by
    rw [Tree.itemBounds_cons] at h
    rw [prettyItems, Tree.itemBounds_cons]
    have hopen := (shows_newline depth).after (shows_mark (c := ',') (by decide) (by decide))
    exact (((shows_pretty t depth h.append_left).after hopen).append
      (shows_prettyItems ts depth h.append_right)).congr holdsNull_append.symm

theorem shows_prettyFields : ∀ (es : List (String × Tree)) (depth : Nat),
    BoundsInRange (Tree.entryBounds es) →
      Shows (prettyFields depth es) (HoldsNull (Tree.entryBounds es))
  | [], _, _ => by
    rw [prettyFields, Tree.entryBounds_nil]
    exact (shows_of_unquoted (by decide) (by decide)).congr holdsNull_nil.symm
  | (k, t) :: es, depth, h => by
    rw [Tree.entryBounds_cons] at h
    rw [prettyFields, Tree.entryBounds_cons]
    have hopen := (shows_newline depth).after (shows_mark (c := ',') (by decide) (by decide))
    have htext := (((shows_key k (shows_pretty t depth h.append_left)).after hopen).append
      (shows_prettyFields es depth h.append_right)).congr holdsNull_append.symm
    simpa using htext

end

/-- The text of a tree has a null exactly if the tree has a scalar that is written as one. -/
theorem hasNull_prettyText_iff {t : Tree} (h : BoundsInRange t.bounds) :
    HasNull (prettyText t) ↔ HoldsNull t.bounds := by
  have hshows := shows_pretty t 0 h
  rw [HasNull, prettyText, String.toList_ofList]
  constructor
  · intro hfound
    exact hshows.of_mem (hfound.subset List.mem_cons_self)
  · exact hshows.infix_of

end GraphRest.Json
