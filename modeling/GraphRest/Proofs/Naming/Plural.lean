import GraphRest.Text.Case
import GraphRest.Naming.Inflection
import Mathlib.Data.List.Basic

/-!
# Texts of plurals

A plural is a beginning of the word with an ending from the rules, so it has braces only if the word or
the rules have some. What stands between an opening brace and a closing one without a brace in between is a
name; without these names, a text shows only where they stand.
-/

namespace GraphRest.Text

/-! ## Names in braces -/

/-- Whether a character is no brace. -/
def isPlain (c : Char) : Bool := c ≠ '{' && c ≠ '}'

/-- The names in braces in a list of characters, in order. -/
def bracedChars : List Char → List String
  | [] => []
  | c :: s =>
      if c = '{' ∧ (s.dropWhile isPlain).head? = some '}' then
        String.ofList (s.takeWhile isPlain) :: bracedChars s
      else bracedChars s

/-- The names in braces in a text. -/
def bracedNames (s : String) : List String := bracedChars s.toList

/-- A text without braces. -/
def Braceless (s : String) : Prop := ∀ c ∈ s.toList, isPlain c = true

instance (s : String) : Decidable (Braceless s) :=
  decidable_of_iff (s.toList.all isPlain = true) List.all_eq_true

theorem ne_brace_of_isPlain {c : Char} (h : isPlain c = true) : c ≠ '{' := by
  rintro rfl
  exact absurd h (by decide)

theorem bracedChars_cons_of_ne {c : Char} (h : c ≠ '{') (s : List Char) :
    bracedChars (c :: s) = bracedChars s := by
  rw [bracedChars, if_neg fun hc => h hc.1]

theorem bracedChars_append {s : List Char} (h : ∀ c ∈ s, isPlain c = true) (t : List Char) :
    bracedChars (s ++ t) = bracedChars t := by
  induction s with
  | nil => rfl
  | cons c s ih =>
      have hc : c ≠ '{' := ne_brace_of_isPlain (h c List.mem_cons_self)
      rw [List.cons_append, bracedChars_cons_of_ne hc, ih fun d hd => h d (List.mem_cons_of_mem _ hd)]

theorem bracedChars_braced {n : List Char} (h : ∀ c ∈ n, isPlain c = true) (t : List Char) :
    bracedChars ('{' :: (n ++ '}' :: t)) = String.ofList n :: bracedChars t := by
  have htake : (n ++ '}' :: t).takeWhile isPlain = n := by
    rw [List.takeWhile_append_of_pos h, List.takeWhile_cons_of_neg (by decide), List.append_nil]
  have hdrop : (n ++ '}' :: t).dropWhile isPlain = '}' :: t := by
    rw [List.dropWhile_append_of_pos h, List.dropWhile_cons_of_neg (by decide)]
  rw [bracedChars, htake, hdrop, if_pos ⟨rfl, rfl⟩, bracedChars_append h,
    bracedChars_cons_of_ne (by decide)]

theorem Braceless.append {s t : String} (hs : Braceless s) (ht : Braceless t) : Braceless (s ++ t) := by
  intro c hc
  rw [String.toList_append, List.mem_append] at hc
  exact hc.elim (hs c) (ht c)

theorem isPlain_toLower {c : Char} (h : isPlain c = true) : isPlain c.toLower = true := by
  unfold Char.toLower
  split
  · rename_i hu
    -- A capital goes to a small letter, and the braces stand behind all letters.
    have hle : c.val.toNat ≤ 90 := UInt32.le_iff_toNat_le.1 hu.2
    have hne : ∀ d : UInt32, 122 < d.toNat → c.val + 32 ≠ d := by
      rintro d hd rfl
      rw [UInt32.toNat_add] at hd
      have h32 : (32 : UInt32).toNat = 32 := rfl
      omega
    simp only [isPlain, Bool.and_eq_true, decide_eq_true_eq, ne_eq, Char.ext_iff]
    exact ⟨hne _ (by decide), hne _ (by decide)⟩
  · exact h

theorem braceless_lowerAscii {s : String} (h : Braceless s) : Braceless (lowerAscii s) := by
  intro c hc
  rw [toList_lowerAscii] at hc
  obtain ⟨d, hd, rfl⟩ := List.mem_map.1 hc
  exact isPlain_toLower (h d hd)

/-- A text without braces adds no names to what stands behind it. -/
theorem bracedNames_append {s : String} (h : Braceless s) (t : String) :
    bracedNames (s ++ t) = bracedNames t := by
  rw [bracedNames, String.toList_append, bracedChars_append h, bracedNames]

theorem bracedNames_of_braceless {s : String} (h : Braceless s) : bracedNames s = [] := by
  have hs := bracedNames_append h ""
  rwa [String.append_empty] at hs

/-! ## Emptying braces -/

/-- A list of characters without the names in its braces. The flag says whether one of them has begun. -/
def emptiedChars : Bool → List Char → List Char
  | _, [] => []
  | false, c :: s => c :: emptiedChars (c = '{' && (s.dropWhile isPlain).head? = some '}') s
  | true, c :: s => if isPlain c then emptiedChars true s else c :: emptiedChars false s

/-- A text with nothing left in its braces. -/
def emptied (s : String) : String := String.ofList (emptiedChars false s.toList)

theorem emptiedChars_append {s : List Char} (h : ∀ c ∈ s, isPlain c = true) (t : List Char) :
    emptiedChars false (s ++ t) = s ++ emptiedChars false t := by
  induction s with
  | nil => rfl
  | cons c s ih =>
      have hc : c ≠ '{' := ne_brace_of_isPlain (h c List.mem_cons_self)
      rw [List.cons_append, emptiedChars, decide_eq_false hc, Bool.false_and,
        ih fun d hd => h d (List.mem_cons_of_mem _ hd)]
      rfl

theorem emptiedChars_in_name {n : List Char} (h : ∀ c ∈ n, isPlain c = true) (t : List Char) :
    emptiedChars true (n ++ '}' :: t) = '}' :: emptiedChars false t := by
  induction n with
  | nil => rfl
  | cons c n ih =>
      rw [List.cons_append, emptiedChars, if_pos (h c List.mem_cons_self),
        ih fun d hd => h d (List.mem_cons_of_mem _ hd)]

/-- Plain texts around braces stay, and what the braces hold goes. -/
theorem emptied_braced {s n t : String} (hs : Braceless s) (hn : Braceless n) (ht : Braceless t) :
    emptied (s ++ ("\x7b" ++ n ++ "\x7d") ++ t) = s ++ "\x7b\x7d" ++ t := by
  have hname : ((n.toList ++ '}' :: t.toList).dropWhile isPlain).head? = some '}' := by
    rw [List.dropWhile_append_of_pos hn, List.dropWhile_cons_of_neg (by decide)]
    rfl
  have htail : emptiedChars false t.toList = t.toList := by
    simpa [emptiedChars] using emptiedChars_append ht []
  apply String.toList_inj.1
  have hlist : (s ++ ("\x7b" ++ n ++ "\x7d") ++ t).toList =
      s.toList ++ '{' :: (n.toList ++ '}' :: t.toList) := by simp
  rw [emptied, hlist, String.toList_ofList, emptiedChars_append hs, emptiedChars, hname,
    decide_eq_true rfl, decide_eq_true rfl, Bool.true_and, emptiedChars_in_name hn, htail]
  simp

theorem emptied_of_braceless {s : String} (h : Braceless s) : emptied s = s := by
  have hs := emptiedChars_append h []
  rw [List.append_nil, emptiedChars, List.append_nil] at hs
  rw [emptied, hs, String.ofList_toList]

end GraphRest.Text

namespace GraphRest.InflectionRules

open Text

/-- All texts of a set of rules. -/
def texts (rules : InflectionRules) : List String :=
  rules.custom.entries.flatMap (fun entry => [entry.1, entry.2]) ++ rules.esSuffixes ++
    [rules.iesSuffix, rules.defaultSuffix]

variable {rules : InflectionRules} {word : String} {side : Side} {entry : String × String}

/-! ## Custom endings -/

theorem longer_eq_or (side : Side) (longest : Option (String × String)) (entry : String × String) :
    longer side longest entry = longest ∨ longer side longest entry = some entry := by
  cases longest with
  | none => exact Or.inr rfl
  | some current =>
      rw [longer]
      split
      · exact Or.inl rfl
      · exact Or.inr rfl

theorem mem_of_foldl_longer (entries : List (String × String)) :
    ∀ longest : Option (String × String), entries.foldl (longer side) longest = some entry →
      longest = some entry ∨ entry ∈ entries := by
  induction entries with
  | nil => exact fun _ h => Or.inl h
  | cons e entries ih =>
      intro longest h
      rcases ih _ h with h | h
      · rcases longer_eq_or side longest e with he | he
        · exact Or.inl (he ▸ h)
        · rw [he, Option.some.injEq] at h
          exact Or.inr (h ▸ List.mem_cons_self)
      · exact Or.inr (List.mem_cons_of_mem _ h)

theorem mem_of_longestMatch? (h : rules.longestMatch? side word = some entry) :
    entry ∈ rules.custom.entries := by
  have hmem := (mem_of_foldl_longer _ none h).resolve_left nofun
  exact (List.mem_filter.1 hmem).1

theorem mem_texts_of_entry (h : entry ∈ rules.custom.entries) : entry.2 ∈ rules.texts :=
  List.mem_append_left _ (List.mem_append_left _ (List.mem_flatMap.2 ⟨entry, h, by simp⟩))

theorem defaultSuffix_mem_texts : rules.defaultSuffix ∈ rules.texts :=
  List.mem_append_right _ (by simp)

/-! ## Braces -/

theorem braceless_before? {ending stem : String} (hw : Braceless word)
    (h : before? ending word = some stem) : Braceless stem := by
  intro c hc
  refine hw c ?_
  rw [before?_eq_some_iff.1 h, String.toList_append]
  exact List.mem_append_left _ hc

theorem braceless_before?_getD {ending : String} (hw : Braceless word) :
    Braceless ((before? ending word).getD word) := by
  cases h : before? ending word with
  | none => exact hw
  | some stem => exact braceless_before? hw h

theorem braceless_iesStem? {stem : String} (hw : Braceless word)
    (h : rules.iesStem? word = some stem) : Braceless stem := by
  rw [iesStem?] at h
  split at h
  · cases h
  · exact braceless_before? hw (Option.filter_eq_some_iff.1 h).1

theorem braceless_pluralize (hr : ∀ t ∈ rules.texts, Braceless t) (hw : Braceless word) :
    Braceless (rules.pluralize word) := by
  rw [pluralize]
  split
  · rename_i entry hentry
    exact (braceless_before?_getD hw).append
      (hr _ (mem_texts_of_entry (mem_of_longestMatch? hentry)))
  · split
    · exact hw.append (by decide)
    · split
      · rename_i stem hstem
        exact (braceless_iesStem? hw hstem).append (by decide)
      · exact hw.append (hr _ defaultSuffix_mem_texts)

end GraphRest.InflectionRules
