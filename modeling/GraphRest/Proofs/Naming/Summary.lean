import GraphRest.Naming.Title
import Mathlib.Data.List.Infix

/-!
# First sentences

A summary is the text in front of the leftmost sentence delimiter, trimmed. No delimiter is left in it, so
it is its own summary.
-/

namespace GraphRest

namespace Text

theorem isInfix_trimChars (s : List Char) : trimChars s <:+: s := by
  have hend : trimChars s <+: s.dropWhile isBlank := by
    rw [trimChars, dropBlankEnd, ← List.reverse_suffix, List.reverse_reverse]
    exact List.dropWhile_suffix isBlank
  exact hend.isInfix.trans (List.dropWhile_suffix isBlank).isInfix

theorem trim_ofList (s : List Char) : trim (String.ofList s) = String.ofList (trimChars s) := by
  rw [trim, String.toList_ofList]

end Text

namespace Naming

open Text

/-- A sentence delimiter stands `n` characters into a text. -/
def DelimiterAt (s : List Char) (n : Nat) : Prop := ∃ d ∈ sentenceDelimiters, d <+: s.drop n

/-- The leftmost sentence delimiter of a text stands `n` characters into it. -/
structure FirstDelimiterAt (s : List Char) (n : Nat) : Prop where
  stands : DelimiterAt s n
  leftmost : ∀ m < n, ¬ DelimiterAt s m

variable {s front : List Char} {c : Char} {n : Nat}

theorem ne_nil_of_mem_sentenceDelimiters : ∀ d ∈ sentenceDelimiters, d ≠ [] := by decide

/-! ## Finding a delimiter -/

theorem delimiterAhead_iff : delimiterAhead s = true ↔ DelimiterAt s 0 := by
  simp [delimiterAhead, DelimiterAt]

theorem firstSentence?_of_delimiterAhead (h : delimiterAhead s = true) : firstSentence? s = some [] := by
  cases s with
  | nil => exact absurd h (by decide)
  | cons c s => rw [firstSentence?, if_pos h]

theorem firstSentence?_of_not_delimiterAhead (h : delimiterAhead (c :: s) = false) :
    firstSentence? (c :: s) = (firstSentence? s).map (c :: ·) := by
  rw [firstSentence?, if_neg (by simp [h])]

theorem delimiterAt_cons_succ : DelimiterAt (c :: s) (n + 1) ↔ DelimiterAt s n := Iff.rfl

theorem FirstDelimiterAt.cons (hc : delimiterAhead (c :: s) = false) (h : FirstDelimiterAt s n) :
    FirstDelimiterAt (c :: s) (n + 1) where
  stands := delimiterAt_cons_succ.2 h.stands
  leftmost := by
    intro m hm
    cases m with
    | zero => simp [← delimiterAhead_iff, hc]
    | succ m => exact h.leftmost m (Nat.lt_of_succ_lt_succ hm)

/-- What stands in front of the leftmost delimiter is found. -/
theorem exists_of_firstSentence? (h : firstSentence? s = some front) :
    ∃ n, FirstDelimiterAt s n ∧ front = s.take n := by
  induction s generalizing front with
  | nil => cases h
  | cons c s ih =>
      cases hc : delimiterAhead (c :: s) with
      | true =>
          rw [firstSentence?_of_delimiterAhead hc] at h
          cases h
          exact ⟨0, ⟨delimiterAhead_iff.1 hc, nofun⟩, rfl⟩
      | false =>
          rw [firstSentence?_of_not_delimiterAhead hc] at h
          obtain ⟨front, hfront, rfl⟩ := Option.map_eq_some_iff.1 h
          obtain ⟨n, hn, rfl⟩ := ih hfront
          exact ⟨n + 1, hn.cons hc, rfl⟩

theorem firstSentence?_eq_none_iff :
    firstSentence? s = none ↔ ∀ d ∈ sentenceDelimiters, ¬ d <:+: s := by
  induction s with
  | nil => simpa [firstSentence?] using ne_nil_of_mem_sentenceDelimiters
  | cons c s ih =>
      cases hc : delimiterAhead (c :: s) with
      | true =>
          obtain ⟨d, hd, hprefix⟩ := delimiterAhead_iff.1 hc
          rw [firstSentence?_of_delimiterAhead hc]
          simpa using ⟨d, hd, hprefix.isInfix⟩
      | false =>
          have hnone : ∀ d ∈ sentenceDelimiters, ¬ d <+: c :: s := by
            intro d hd hprefix
            rw [delimiterAhead_iff.2 ⟨d, hd, hprefix⟩] at hc
            cases hc
          simp only [firstSentence?_of_not_delimiterAhead hc, Option.map_eq_none_iff, ih,
            List.infix_cons_iff, not_or]
          exact forall₂_congr fun d hd => (and_iff_right (hnone d hd)).symm

/-- A delimiter in front of the leftmost one would stand further left. -/
theorem FirstDelimiterAt.not_infix (h : FirstDelimiterAt s n) :
    ∀ d ∈ sentenceDelimiters, ¬ d <:+: s.take n := by
  rintro d hd ⟨pre, post, hcut⟩
  have hs : s = pre ++ (d ++ (post ++ s.drop n)) :=
    calc s = s.take n ++ s.drop n := (List.take_append_drop n s).symm
      _ = pre ++ (d ++ (post ++ s.drop n)) := by simp [← hcut]
  have hlt : pre.length < n := by
    have hlen := congrArg List.length hcut
    have hpos := List.length_pos_iff.2 (ne_nil_of_mem_sentenceDelimiters d hd)
    simp only [List.length_append, List.length_take] at hlen
    omega
  refine h.leftmost _ hlt ⟨d, hd, ?_⟩
  rw [hs, List.drop_left]
  exact List.prefix_append _ _

/-! ## Summaries -/

theorem summarise_of_some {t : String} (h : firstSentence? t.toList = some front) :
    summarise t = ⟨String.ofList (trimChars front), trim t⟩ := by
  rw [summarise, h]

theorem summarise_of_none {t : String} (h : firstSentence? t.toList = none) : summarise t = ⟨t, t⟩ := by
  rw [summarise, h]

/-- No delimiter is left in a summary. -/
theorem firstSentence?_summary (t : String) : firstSentence? (summarise t).summary.toList = none := by
  cases h : firstSentence? t.toList with
  | none => rwa [summarise_of_none h]
  | some front =>
      obtain ⟨n, hn, rfl⟩ := exists_of_firstSentence? h
      rw [summarise_of_some h, String.toList_ofList, firstSentence?_eq_none_iff]
      intro d hd hinside
      exact hn.not_infix d hd (hinside.trans (isInfix_trimChars _))

/-- A text is cut at its leftmost sentence delimiter; one without any stands for both parts. No delimiter
is left in the summary, so it is not cut again. -/
theorem summarise_cuts_at_first_delimiter (t : String) :
    ((∃ d ∈ sentenceDelimiters, d <:+: t.toList) → ∃ n, FirstDelimiterAt t.toList n ∧
      summarise t = ⟨trim (String.ofList (t.toList.take n)), trim t⟩) ∧
    ((∀ d ∈ sentenceDelimiters, ¬ d <:+: t.toList) → summarise t = ⟨t, t⟩) ∧
    (∀ d ∈ sentenceDelimiters, ¬ d <:+: (summarise t).summary.toList) ∧
    summarise (summarise t).summary = ⟨(summarise t).summary, (summarise t).summary⟩ := by
  refine ⟨?_, ?_, ?_, ?_⟩
  · rintro ⟨d, hd, hinside⟩
    cases h : firstSentence? t.toList with
    | none => exact absurd hinside (firstSentence?_eq_none_iff.1 h d hd)
    | some front =>
        obtain ⟨n, hn, rfl⟩ := exists_of_firstSentence? h
        refine ⟨n, hn, ?_⟩
        rw [summarise_of_some h, trim_ofList]
  · intro h
    exact summarise_of_none (firstSentence?_eq_none_iff.2 h)
  · exact firstSentence?_eq_none_iff.1 (firstSentence?_summary t)
  · exact summarise_of_none (firstSentence?_summary t)

/-- Of two delimiters that share a space the one further left counts. -/
example : summarise " What? - Yes. " = ⟨"What", "What? - Yes."⟩ := by decide +kernel

end Naming

end GraphRest
