import GraphRest.Decimal.Double
import GraphRest.Proofs.Decimal.Rounding
import Mathlib.Data.List.TakeDrop
import Mathlib.Data.List.TakeWhile
import Mathlib.Tactic.SplitIfs

/-!
# Which texts are read as doubles

The texts that spell a decimal number, with the digits and the power of ten that they stand for, and the
texts that are read as a value without decimal digits: three words, and numbers beyond all doubles.
-/

namespace GraphRest.Decimal

open Double (overflow InRange)

/-! ## Spelling -/

/-- A text with an optional sign in front of it; true stands for a minus sign. -/
inductive Signed : Bool → List Char → List Char → Prop
  | minus (s : List Char) : Signed true ('-' :: s) s
  | plus (s : List Char) : Signed false ('+' :: s) s
  | bare (s : List Char) : Signed false s s

/-- A text of decimal digits, and of one at least. -/
structure DigitText (ds : List Char) : Prop where
  ne_nil : ds ≠ []
  isDigit : ∀ c ∈ ds, c.isDigit = true

/-- A text spells the exponent of a power of ten: nothing at all, or `e` with a signed number. -/
inductive Exponent : List Char → Int → Prop
  | absent : Exponent [] 0
  | given {c : Char} {negative : Bool} {s ds : List Char} (hc : c = 'e' ∨ c = 'E')
      (hs : Signed negative s ds) (hds : DigitText ds) :
      Exponent (c :: s) (if negative then -(digitsValue ds : Int) else digitsValue ds)

/-- A text spells the unsigned number `n * 10 ^ e`: digits, a point between them if there is one, and an
exponent. -/
inductive Spells : List Char → Nat → Int → Prop
  | whole {ds t : List Char} {e : Int} (hds : DigitText ds) (ht : Exponent t e) :
      Spells (ds ++ t) (digitsValue ds) e
  | pointed {ds fs t : List Char} {e : Int} (hds : DigitText (ds ++ fs)) (ht : Exponent t e) :
      Spells (ds ++ '.' :: (fs ++ t)) (digitsValue (ds ++ fs)) (e - fs.length)

variable {negative : Bool} {s ds t : List Char} {n : Nat} {e : Int} {d : Double}

theorem digits?_eq_some_iff : digits? ds = some n ↔ DigitText ds ∧ n = digitsValue ds := by
  unfold digits?
  constructor
  · intro h
    split at h
    · cases h
    · rename_i hds
      simp only [Bool.or_eq_true, List.isEmpty_iff, Bool.not_eq_true', not_or, Bool.not_eq_false,
        List.all_eq_true] at hds
      cases h
      exact ⟨⟨hds.1, hds.2⟩, rfl⟩
  · rintro ⟨hds, rfl⟩
    rw [if_neg]
    simp only [Bool.or_eq_true, List.isEmpty_iff, Bool.not_eq_true', not_or, Bool.not_eq_false,
      List.all_eq_true]
    exact ⟨hds.ne_nil, hds.isDigit⟩

theorem signed_takeSign (s : List Char) : Signed (takeSign s).1 s (takeSign s).2 := by
  unfold takeSign
  split
  · exact .minus _
  · exact .plus _
  · exact .bare _

/-- A text is read as one with a sign only if what stands behind the sign has none itself. -/
theorem takeSign_eq (h : Signed negative s t) (hminus : t.head? ≠ some '-')
    (hplus : t.head? ≠ some '+') : takeSign s = (negative, t) := by
  cases h with
  | minus => rfl
  | plus => rfl
  | bare =>
      unfold takeSign
      split
      · exact absurd rfl hminus
      · exact absurd rfl hplus
      · rfl

theorem DigitText.head?_ne (h : DigitText ds) {x : Char} (hx : x.isDigit = false) :
    ds.head? ≠ some x := by
  intro hhead
  rw [h.isDigit x (List.mem_of_mem_head? hhead)] at hx
  cases hx

theorem exponent?_cons {c : Char} (hc : c = 'e' ∨ c = 'E') : exponent? (c :: s) =
    (digits? (takeSign s).2).bind fun n =>
      some (if (takeSign s).1 then -(n : Int) else n) := by
  rw [exponent?, if_pos hc]
  obtain ⟨negative, ds⟩ := takeSign s
  dsimp only
  cases digits? ds <;> rfl

theorem exponent?_eq_some_iff : exponent? t = some e ↔ Exponent t e := by
  constructor
  · intro h
    cases t with
    | nil => cases h; exact .absent
    | cons c s =>
        by_cases hc : c = 'e' ∨ c = 'E'
        · rw [exponent?_cons hc] at h
          obtain ⟨n, hn, he⟩ := Option.bind_eq_some_iff.1 h
          obtain ⟨hds, rfl⟩ := digits?_eq_some_iff.1 hn
          cases he
          exact .given hc (signed_takeSign s) hds
        · rw [exponent?, if_neg hc] at h
          cases h
  · intro h
    cases h with
    | absent => rfl
    | given hc hs hds =>
        rw [exponent?_cons hc, takeSign_eq hs (hds.head?_ne (by decide)) (hds.head?_ne (by decide)),
          digits?_eq_some_iff.2 ⟨hds, rfl⟩]
        rfl

theorem Exponent.head?_ne (h : Exponent t e) : ∀ c ∈ t.head?, c.isDigit = false ∧ c ≠ '.' := by
  cases h with
  | absent => nofun
  | given hc _ _ =>
      rintro _ ⟨⟩
      rcases hc with rfl | rfl <;> decide

/-! ## Reading numbers without a sign -/

theorem spanDigits_append (hds : ∀ c ∈ ds, c.isDigit = true)
    (ht : ∀ c ∈ t.head?, c.isDigit = false) : spanDigits (ds ++ t) = (ds, t) := by
  rw [spanDigits, List.span_eq_takeWhile_dropWhile, List.takeWhile_append_of_pos hds,
    List.dropWhile_append_of_pos hds]
  cases t with
  | nil => simp
  | cons c t =>
      have hc := ht c rfl
      simp [hc]

theorem exists_spanDigits (s : List Char) :
    ∃ ds t, spanDigits s = (ds, t) ∧ s = ds ++ t ∧ ∀ c ∈ ds, c.isDigit = true := by
  rw [spanDigits, List.span_eq_takeWhile_dropWhile]
  exact ⟨_, _, rfl, List.takeWhile_append_dropWhile.symm, fun c hc => List.mem_takeWhile_imp hc⟩

/-- An unsigned number read from its digits on both sides of the point and what stands behind them. -/
def ofParts? (negative : Bool) (ds fs t : List Char) : Option Double :=
  if ds.isEmpty && fs.isEmpty then none
  else (exponent? t).map fun e => .ofDecimal negative (digitsValue (ds ++ fs)) (e - fs.length)

theorem ofParts?_eq_some_iff {fs : List Char} (hds : ∀ c ∈ ds, c.isDigit = true)
    (hfs : ∀ c ∈ fs, c.isDigit = true) : ofParts? negative ds fs t = some d ↔
      DigitText (ds ++ fs) ∧ ∃ e, Exponent t e ∧
        d = .ofDecimal negative (digitsValue (ds ++ fs)) (e - fs.length) := by
  have hempty : (ds.isEmpty && fs.isEmpty) = true ↔ ds ++ fs = [] := by simp
  rw [ofParts?]
  constructor
  · intro h
    split at h
    · cases h
    · rename_i hne
      obtain ⟨e, he, rfl⟩ := Option.map_eq_some_iff.1 h
      refine ⟨⟨fun hnil => hne (hempty.2 hnil), fun c hc => ?_⟩, e, exponent?_eq_some_iff.1 he, rfl⟩
      exact (List.mem_append.1 hc).elim (hds c) (hfs c)
  · rintro ⟨hdigits, e, he, rfl⟩
    rw [if_neg fun hnil => hdigits.ne_nil (hempty.1 hnil), exponent?_eq_some_iff.2 he]
    rfl

theorem unsigned?_of_point {r : List Char} (h : spanDigits s = (ds, '.' :: r)) :
    unsigned? negative s = ofParts? negative ds (spanDigits r).1 (spanDigits r).2 := by
  unfold unsigned?
  rw [h]
  rfl

theorem unsigned?_of_no_point (h : spanDigits s = (ds, t)) (ht : t.head? ≠ some '.') :
    unsigned? negative s = ofParts? negative ds [] t := by
  unfold unsigned?
  rw [h]
  dsimp only
  split
  · exact absurd rfl ht
  · rfl

/-- What is read as an unsigned number is what spells one, and it is read as the double nearest to it. -/
theorem unsigned?_eq_some_iff : unsigned? negative s = some d ↔
    ∃ n e, Spells s n e ∧ d = .ofDecimal negative n e := by
  constructor
  · intro h
    obtain ⟨ds, t, hspan, rfl, hds⟩ := exists_spanDigits s
    by_cases hpoint : t.head? = some '.'
    · obtain ⟨r, rfl⟩ := List.head?_eq_some_iff.1 hpoint
      obtain ⟨fs, t, hfraction, rfl, hfs⟩ := exists_spanDigits r
      rw [unsigned?_of_point hspan, hfraction, ofParts?_eq_some_iff hds hfs] at h
      obtain ⟨hdigits, e, he, rfl⟩ := h
      exact ⟨_, _, .pointed hdigits he, rfl⟩
    · rw [unsigned?_of_no_point hspan hpoint, ofParts?_eq_some_iff hds (List.forall_mem_nil _)] at h
      obtain ⟨hdigits, e, he, rfl⟩ := h
      rw [List.append_nil] at hdigits ⊢
      rw [List.length_nil, Nat.cast_zero, sub_zero]
      exact ⟨_, e, .whole hdigits he, rfl⟩
  · rintro ⟨n, e, hs, rfl⟩
    cases hs with
    | whole hds ht =>
        have hspan := spanDigits_append hds.isDigit fun c hc => (ht.head?_ne c hc).1
        rw [unsigned?_of_no_point hspan fun hc => (ht.head?_ne _ hc).2 rfl,
          ofParts?_eq_some_iff hds.isDigit (List.forall_mem_nil _)]
        exact ⟨by rwa [List.append_nil], e, ht, by simp⟩
    | @pointed ds fs t e hdigits ht =>
        have hds : ∀ c ∈ ds, c.isDigit = true := fun c hc =>
          hdigits.isDigit c (List.mem_append_left _ hc)
        have hfs : ∀ c ∈ fs, c.isDigit = true := fun c hc =>
          hdigits.isDigit c (List.mem_append_right _ hc)
        have hpoint : spanDigits (ds ++ '.' :: (fs ++ t)) = (ds, '.' :: (fs ++ t)) :=
          spanDigits_append hds (by simp)
        rw [unsigned?_of_point hpoint, spanDigits_append hfs fun c hc => (ht.head?_ne c hc).1,
          ofParts?_eq_some_iff hds hfs]
        exact ⟨hdigits, e, ht, rfl⟩

/-! ## Values without decimal digits -/

/-- The words that are read as infinity or as no number. -/
def words : List String := ["inf", "infinity", "nan"]

/-- A text stands for no finite double: but for its sign it is one of the words, in any case, or it spells
a number that is rounded to infinity. -/
inductive Unbounded (s : String) : Prop
  | word {negative : Bool} {w : List Char} (hs : Signed negative s.toList w)
      (hw : String.ofList (w.map Char.toLower) ∈ words)
  | large {negative : Bool} {w : List Char} {n : Nat} {e : Int} (hs : Signed negative s.toList w)
      (hw : Spells w n e) (hlarge : overflow ≤ n * 10 ^ e)

theorem Spells.head?_ne (h : Spells s n e) {x : Char} (hx : x.isDigit = false) (hpoint : x ≠ '.') :
    s.head? ≠ some x := by
  have hhead : ∃ c, s.head? = some c ∧ (c.isDigit = true ∨ c = '.') := by
    cases h with
    | @whole ds t e hds _ =>
        obtain ⟨c, ds, rfl⟩ := List.exists_cons_of_ne_nil hds.ne_nil
        exact ⟨c, rfl, Or.inl (hds.isDigit c List.mem_cons_self)⟩
    | @pointed ds fs t e hds _ =>
        cases ds with
        | nil => exact ⟨'.', rfl, Or.inr rfl⟩
        | cons c ds => exact ⟨c, rfl, Or.inl (hds.isDigit c List.mem_cons_self)⟩
  obtain ⟨c, hc, hor⟩ := hhead
  rw [hc]
  rintro ⟨⟩
  rcases hor with hd | rfl
  · rw [hd] at hx
    cases hx
  · exact hpoint rfl

/-- The first character of a word is a letter. -/
theorem head?_ne_of_mem_words {w : List Char} (h : String.ofList (w.map Char.toLower) ∈ words) {x : Char}
    (hx : x.toLower ≠ 'i' ∧ x.toLower ≠ 'n') : w.head? ≠ some x := by
  intro hhead
  obtain ⟨r, rfl⟩ := List.head?_eq_some_iff.1 hhead
  have hword (v : String) (hv : String.ofList ((x :: r).map Char.toLower) = v) :
      v.toList.head? = some x.toLower := by
    rw [← hv, String.toList_ofList]
    rfl
  simp only [words, List.mem_cons, List.not_mem_nil, or_false] at h
  rcases h with h | h | h
  · exact hx.1 (Option.some.inj (hword _ h)).symm
  · exact hx.1 (Option.some.inj (hword _ h)).symm
  · exact hx.2 (Option.some.inj (hword _ h)).symm

theorem double?_of_mem_words {s : String} {w : List Char} (hs : takeSign s.toList = (negative, w))
    (hw : String.ofList (w.map Char.toLower) ∈ words) : ∃ d, double? s = some d ∧ d.isFinite = false := by
  unfold double?
  rw [hs]
  dsimp only
  simp only [words, List.mem_cons, List.not_mem_nil, or_false] at hw
  split_ifs with h h'
  · exact ⟨_, rfl, rfl⟩
  · exact ⟨_, rfl, rfl⟩
  · exact absurd (or_assoc.2 hw) (not_or.2 ⟨h, h'⟩)

theorem double?_of_not_mem_words {s : String} {w : List Char} (hs : takeSign s.toList = (negative, w))
    (hw : String.ofList (w.map Char.toLower) ∉ words) : double? s = unsigned? negative w := by
  unfold double?
  rw [hs]
  dsimp only
  simp only [words, List.mem_cons, List.not_mem_nil, or_false, not_or] at hw
  rw [if_neg (not_or.2 ⟨hw.1, hw.2.1⟩), if_neg hw.2.2]

/-- What is read as a double but as no finite one is what stands for none. -/
theorem exists_double?_iff_unbounded {s : String} :
    (∃ d, double? s = some d ∧ d.isFinite = false) ↔ Unbounded s := by
  constructor
  · rintro ⟨d, hd, hfinite⟩
    have hsigned := signed_takeSign s.toList
    by_cases hw : String.ofList ((takeSign s.toList).2.map Char.toLower) ∈ words
    · exact .word hsigned hw
    · rw [double?_of_not_mem_words rfl hw] at hd
      obtain ⟨n, e, hspells, rfl⟩ := unsigned?_eq_some_iff.1 hd
      refine .large hsigned hspells (not_lt.1 fun hlt => ?_)
      rw [(Double.isFinite_ofDecimal_iff _ n e).2 hlt] at hfinite
      cases hfinite
  · rintro (⟨hs, hw⟩ | @⟨negative, w, n, e, hs, hw, hlarge⟩)
    · refine double?_of_mem_words (takeSign_eq hs ?_ ?_) hw
      · exact head?_ne_of_mem_words hw (by decide)
      · exact head?_ne_of_mem_words hw (by decide)
    · have hsign := takeSign_eq hs (hw.head?_ne (by decide) (by decide))
        (hw.head?_ne (by decide) (by decide))
      by_cases hword : String.ofList (w.map Char.toLower) ∈ words
      · exact double?_of_mem_words hsign hword
      · refine ⟨_, (double?_of_not_mem_words hsign hword).trans
          (unsigned?_eq_some_iff.2 ⟨_, _, hw, rfl⟩), ?_⟩
        rw [← Bool.not_eq_true, Double.isFinite_ofDecimal_iff]
        exact not_lt.2 hlarge

theorem inRange_of_double? {s : String} {m : Nat} (h : double? s = some (.finite negative m e)) :
    InRange m e := by
  by_cases hw : String.ofList ((takeSign s.toList).2.map Char.toLower) ∈ words
  · obtain ⟨d, hd, hfinite⟩ := double?_of_mem_words rfl hw
    rw [hd] at h
    cases h
    cases hfinite
  · rw [double?_of_not_mem_words rfl hw] at h
    obtain ⟨n, e', -, hd⟩ := unsigned?_eq_some_iff.1 h
    exact Double.inRange_of_ofDecimal hd.symm

end GraphRest.Decimal
