import GraphRest.Text.Basic
import Mathlib.Data.List.Induction
import Mathlib.Data.String.Basic

/-!
# Texts

A text up to some place has lines that are complete and a line that is still open, which what follows
continues. Trimming takes nothing away but blanks, and joined lines give back the text that they are lines
of. Texts compare in the order of their UTF-8 bytes.
-/

namespace GraphRest.Text

section

variable {s t l : List Char} {ls : List (List Char)} {c : Char}

/-! ## Complete lines and the open one -/

/-- The characters behind the last line feed. -/
def openLine (s : List Char) : List Char := (s.reverse.takeWhile (· ≠ '\n')).reverse

/-- The characters up to the last line feed. -/
def untilFeed (s : List Char) : List Char := (s.reverse.dropWhile (· ≠ '\n')).reverse

/-- The lines that are complete. -/
def completeLines (s : List Char) : List (List Char) := lines (untilFeed s)

theorem untilFeed_append_openLine (s : List Char) : untilFeed s ++ openLine s = s := by
  rw [untilFeed, openLine, ← List.reverse_append, List.takeWhile_append_dropWhile, List.reverse_reverse]

theorem not_mem_openLine (s : List Char) : '\n' ∉ openLine s := by
  intro h
  have hall := List.all_eq_true.1 List.all_takeWhile '\n' (List.mem_reverse.1 h)
  simp at hall

theorem untilFeed_eq (s : List Char) : untilFeed s = [] ∨ ∃ r, untilFeed s = r ++ ['\n'] := by
  cases h : s.reverse.dropWhile (· ≠ '\n') with
  | nil => exact .inl (by rw [untilFeed, h, List.reverse_nil])
  | cons c r =>
      have hc := List.head?_dropWhile_not (· ≠ '\n') s.reverse
      rw [h] at hc
      have hfeed : c = '\n' := by simpa using hc
      exact .inr ⟨r.reverse, by rw [untilFeed, h, List.reverse_cons, hfeed]⟩

theorem lines_ne_nil (h : s ≠ []) : lines s ≠ [] := by
  cases s with
  | nil => exact absurd rfl h
  | cons c s =>
      rw [lines]
      split
      · exact List.cons_ne_nil _ _
      · split <;> exact List.cons_ne_nil _ _

theorem lines_append_feed (s t : List Char) :
    lines (s ++ '\n' :: t) = lines (s ++ ['\n']) ++ lines t := by
  induction s with
  | nil => simp [lines]
  | cons c s ih =>
      by_cases hc : c = '\n'
      · simp [lines, hc, ih]
      · simp only [List.cons_append, lines, if_neg hc, ih]
        cases h : lines (s ++ ['\n']) with
        | nil => exact absurd h (lines_ne_nil (by simp))
        | cons l ls => rfl

/-- The complete lines stay as they are, and the open one is continued. -/
theorem lines_append (s t : List Char) :
    lines (s ++ t) = completeLines s ++ lines (openLine s ++ t) := by
  have hs : s ++ t = untilFeed s ++ (openLine s ++ t) := by
    rw [← List.append_assoc, untilFeed_append_openLine]
  rw [hs, completeLines]
  rcases untilFeed_eq s with h | ⟨r, h⟩
  · rw [h]; rfl
  · rw [h, List.append_assoc, List.singleton_append, lines_append_feed]

theorem lines_of_not_mem (h : '\n' ∉ s) : lines s = if s = [] then [] else [s] := by
  induction s with
  | nil => rfl
  | cons c s ih =>
      simp only [List.mem_cons, not_or] at h
      rw [lines, if_neg (Ne.symm h.1), ih h.2]
      cases s <;> rfl

theorem not_mem_of_mem_lines (h : l ∈ lines s) : '\n' ∉ l := by
  induction s generalizing l with
  | nil => cases h
  | cons c s ih =>
      rw [lines] at h
      split at h
      · rcases List.mem_cons.1 h with rfl | h
        · exact List.not_mem_nil
        · exact ih h
      · rename_i hc
        split at h
        · obtain rfl := List.mem_singleton.1 h
          simpa using Ne.symm hc
        · rename_i l' ls hs
          rw [hs] at ih
          rcases List.mem_cons.1 h with rfl | h
          · simpa [Ne.symm hc] using ih List.mem_cons_self
          · exact ih (List.mem_cons_of_mem _ h)

/-! ## Trimming -/

/-- Whether a character carries ink. -/
def isInk (c : Char) : Bool := !isBlank c

theorem filter_dropWhile_isBlank (s : List Char) : (s.dropWhile isBlank).filter isInk = s.filter isInk := by
  induction s with
  | nil => rfl
  | cons c s ih =>
      by_cases h : isBlank c = true
      · rw [List.dropWhile_cons_of_pos h, ih]
        simp [h, isInk]
      · rw [List.dropWhile_cons_of_neg h]

theorem filter_trimChars (s : List Char) : (trimChars s).filter isInk = s.filter isInk := by
  rw [trimChars, dropBlankEnd, List.filter_reverse, filter_dropWhile_isBlank, List.filter_reverse,
    List.reverse_reverse, filter_dropWhile_isBlank]

/-- Trimming keeps all characters with ink. -/
theorem count_trimChars (h : isInk c = true) (s : List Char) :
    (trimChars s).count c = s.count c := by
  rw [← List.count_filter h, filter_trimChars, List.count_filter h]

theorem trimChars_ne_nil (h : isInk c = true) (hmem : c ∈ s) : trimChars s ≠ [] := by
  intro hnil
  have hcount := count_trimChars h s
  rw [hnil, List.count_nil] at hcount
  exact List.count_eq_zero.1 hcount.symm hmem

theorem dropBlankEnd_cons (h : isBlank c = false) (s : List Char) :
    dropBlankEnd (c :: s) = c :: dropBlankEnd s := by
  rw [dropBlankEnd, dropBlankEnd, List.reverse_cons, List.dropWhile_append]
  cases hs : s.reverse.dropWhile isBlank <;> simp [h]

/-- The first character of a trimmed text is the first one with ink. -/
theorem head?_trimChars (s : List Char) : (trimChars s).head? = (s.dropWhile isBlank).head? := by
  cases h : s.dropWhile isBlank with
  | nil => rw [trimChars, h]; rfl
  | cons c r =>
      have hc := List.head?_dropWhile_not isBlank s
      rw [h] at hc
      rw [trimChars, h, dropBlankEnd_cons (by simpa using hc)]
      rfl

theorem head?_trimChars_append {s : List Char} (h : trimChars s ≠ []) (t : List Char) :
    (trimChars (s ++ t)).head? = (trimChars s).head? := by
  have hs : s.dropWhile isBlank ≠ [] := fun hnil => h (by rw [trimChars, hnil]; rfl)
  rw [head?_trimChars, head?_trimChars, List.dropWhile_append]
  cases hd : s.dropWhile isBlank with
  | nil => exact absurd hd hs
  | cons c r => rfl

/-! ## Trimming at either end -/

theorem trimChars_cons_of_blank (h : isBlank c = true) (s : List Char) :
    trimChars (c :: s) = trimChars s := by
  rw [trimChars, List.dropWhile_cons_of_pos h, trimChars]

theorem dropBlankEnd_concat_of_blank (h : isBlank c = true) (s : List Char) :
    dropBlankEnd (s ++ [c]) = dropBlankEnd s := by
  rw [dropBlankEnd, List.reverse_append, List.reverse_singleton, List.singleton_append,
    List.dropWhile_cons_of_pos h, dropBlankEnd]

theorem dropBlankEnd_concat_of_ink (h : isBlank c = false) (s : List Char) :
    dropBlankEnd (s ++ [c]) = s ++ [c] := by
  rw [dropBlankEnd, List.reverse_append, List.reverse_singleton, List.singleton_append,
    List.dropWhile_cons_of_neg (by simp [h]), List.reverse_cons, List.reverse_reverse]

theorem trimChars_concat_of_blank (h : isBlank c = true) (s : List Char) :
    trimChars (s ++ [c]) = trimChars s := by
  rw [trimChars, List.dropWhile_append]
  cases hs : s.dropWhile isBlank with
  | nil => simp [h, trimChars, hs]
  | cons d r =>
      rw [trimChars, hs]
      exact dropBlankEnd_concat_of_blank h (d :: r)

theorem trimChars_dropBlankEnd (s : List Char) : trimChars (dropBlankEnd s) = trimChars s := by
  induction s using List.reverseRecOn with
  | nil => rfl
  | append_singleton s c ih =>
      cases hc : isBlank c with
      | true => rw [dropBlankEnd_concat_of_blank hc, trimChars_concat_of_blank hc, ih]
      | false => rw [dropBlankEnd_concat_of_ink hc]

theorem length_trimChars_le (s : List Char) : (trimChars s).length ≤ s.length := by
  have hfront : (s.dropWhile isBlank).length ≤ s.length := (List.dropWhile_sublist _).length_le
  have hend : ((s.dropWhile isBlank).reverse.dropWhile isBlank).length ≤
      (s.dropWhile isBlank).reverse.length := (List.dropWhile_sublist _).length_le
  rw [List.length_reverse] at hend
  rw [trimChars, dropBlankEnd, List.length_reverse]
  exact Nat.le_trans hend hfront

/-- A trimmed text begins with ink. -/
theorem isBlank_of_trimmed_cons (h : trimChars (c :: s) = c :: s) : isBlank c = false := by
  refine Bool.eq_false_iff.2 fun hc => ?_
  have hle := length_trimChars_le s
  rw [← trimChars_cons_of_blank hc, h, List.length_cons] at hle
  omega

/-- A trimmed text ends in ink. -/
theorem isBlank_of_trimmed_concat (h : trimChars (s ++ [c]) = s ++ [c]) : isBlank c = false := by
  refine Bool.eq_false_iff.2 fun hc => ?_
  have hle := length_trimChars_le s
  rw [← trimChars_concat_of_blank hc, h, List.length_append, List.length_singleton] at hle
  omega

theorem getLast?_ne_of_trimmed (h : trimChars s = s) (hc : isBlank c = true) : s.getLast? ≠ some c := by
  intro hlast
  obtain ⟨r, rfl⟩ := List.getLast?_eq_some_iff.1 hlast
  rw [isBlank_of_trimmed_concat h] at hc
  cases hc

/-! ## Joined lines -/

/-- A text that does not end in a line feed is its lines with line feeds between them. -/
theorem intercalate_lines (h : s.getLast? ≠ some '\n') : List.intercalate ['\n'] (lines s) = s := by
  induction s with
  | nil => rfl
  | cons c s ih =>
      by_cases hs : s = []
      · subst hs
        have hc : c ≠ '\n' := by simpa using h
        simp [lines, hc]
      · have hlast : s.getLast? ≠ some '\n' := by rwa [List.getLast?_cons_of_ne_nil hs] at h
        have hne : lines s ≠ [] := lines_ne_nil hs
        rw [lines]
        split
        · rename_i hc
          rw [List.intercalate_cons_of_ne_nil hne, ih hlast, hc]
          rfl
        · split
          · exact absurd (by assumption) hne
          · rename_i l ls hl
            rw [List.intercalate_cons_cons_left, ← hl, ih hlast]

/-- An empty line at the end adds a separator. -/
theorem intercalate_concat_nil {sep : List Char} (h : ls ≠ []) :
    List.intercalate sep (ls ++ [[]]) = List.intercalate sep ls ++ sep := by
  induction ls with
  | nil => exact absurd rfl h
  | cons l ls ih =>
      by_cases hls : ls = []
      · simp [hls]
      · rw [List.cons_append, List.intercalate_cons_of_ne_nil (by simp), ih hls,
          List.intercalate_cons_of_ne_nil hls, List.append_assoc]
        simp

theorem count_le_intercalate {sep : List Char} (h : l ∈ ls) :
    l.count c ≤ (List.intercalate sep ls).count c := by
  induction ls with
  | nil => cases h
  | cons l' ls ih =>
      cases ls with
      | nil =>
          obtain rfl := List.mem_singleton.1 h
          simp [List.intercalate]
      | cons l'' ls =>
          have hjoin : List.intercalate sep (l' :: l'' :: ls) =
              l' ++ sep ++ List.intercalate sep (l'' :: ls) := by simp [List.intercalate]
          rw [hjoin, List.count_append, List.count_append]
          rcases List.mem_cons.1 h with rfl | h
          · omega
          · have := ih h
            omega

end

/-! ## Byte order

Texts compare character by character. This is the order of their UTF-8 bytes: a smaller character has a
smaller byte at the first place where the two encodings differ. -/

/-- The bytes of a text in UTF-8. -/
def bytes (s : String) : List UInt8 := s.toUTF8.data.toList

theorem bytes_eq_flatMap (s : String) : bytes s = s.toList.flatMap String.utf8EncodeChar := by
  have h : s.toUTF8 = s.toList.utf8Encode := String.utf8Encode_toList.symm
  rw [bytes, h, List.utf8Encode, List.toList_data_toByteArray]

theorem code_lt (c : Char) : c.val.toNat < 1114112 := by
  rcases c.valid with h | h
  · exact Nat.lt_trans h (by decide)
  · exact h.2

/-- The encodings of two characters differ in a byte, and behind it anything may follow. -/
theorem encode_append_lt {c d : Char} (h : c < d) (s t : List UInt8) :
    String.utf8EncodeChar c ++ s < String.utf8EncodeChar d ++ t := by
  have hlt : c.val.toNat < d.val.toNat := UInt32.lt_iff_toNat_lt.1 (Char.lt_def.1 h)
  have hd : d.val.toNat < 1114112 := code_lt d
  unfold String.utf8EncodeChar
  dsimp only
  -- Each byte is a digit of the character's code behind marks that say how many bytes there are.
  split_ifs <;>
    simp (disch := omega) only [List.cons_append, List.nil_append, List.cons_lt_cons_iff,
      UInt8.lt_iff_toNat_lt, ← UInt8.toNat_inj, UInt8.toNat_ofNat', Nat.mod_eq_of_lt] <;>
    omega

theorem encode_lt {x y : List Char} (h : x < y) :
    x.flatMap String.utf8EncodeChar < y.flatMap String.utf8EncodeChar := by
  induction x generalizing y with
  | nil =>
      cases y with
      | nil => exact absurd h (List.lt_irrefl _)
      | cons d y =>
          rw [List.flatMap_cons]
          cases hd : String.utf8EncodeChar d with
          | nil => exact absurd hd (String.utf8EncodeChar_ne_nil)
          | cons b bs => exact List.nil_lt_cons _ _
  | cons c x ih =>
      cases y with
      | nil => exact absurd h (List.not_lt_nil _)
      | cons d y =>
          rw [List.flatMap_cons, List.flatMap_cons]
          rcases List.cons_lt_cons_iff.1 h with hcd | ⟨rfl, hxy⟩
          · exact encode_append_lt hcd _ _
          · exact List.append_left_lt (ih hxy)

/-- The order of texts is that of their bytes. -/
theorem bytes_lt_iff {s t : String} : bytes s < bytes t ↔ s < t := by
  rw [bytes_eq_flatMap, bytes_eq_flatMap, String.lt_iff_toList_lt]
  constructor
  · intro h
    rcases lt_trichotomy s t with hlt | rfl | hgt
    · exact String.lt_iff_toList_lt.1 hlt
    · exact absurd h (List.lt_irrefl _)
    · exact absurd (encode_lt (String.lt_iff_toList_lt.1 hgt)) (List.lt_asymm h)
  · exact encode_lt

end GraphRest.Text
