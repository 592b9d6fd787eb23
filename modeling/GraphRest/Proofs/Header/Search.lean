import GraphRest.Header
import GraphRest.Proofs.Text.Basic

/-!
# The search for a header

The header is searched for line by line. Where the search stands behind some lines decides what the lines
behind them add, and whether any of them can.
-/

namespace GraphRest.Header

open Text

/-- Where the search for the header stands: it has ended, or it goes on inside or outside a block, with
text found before or not. -/
inductive Search where
  | ended
  | searching (inBlock filled : Bool)

namespace Search

/-- Keeps a text and goes on. -/
def keep (text : List Char) (inBlock filled : Bool) : List (List Char) × Search :=
  ([text], searching inBlock (filled || !text.isEmpty))

/-- What a line adds to the header, and where the search stands behind it. -/
def step : Search → List Char → List (List Char) × Search
  | ended, _ => ([], ended)
  | searching true filled, line =>
      match beforeChars? blockQuote (trimChars line) with
      | some last => keep (trimChars last) false filled
      | none => keep (trimChars line) true filled
  | searching false filled, line =>
      match afterChars? blockQuote (trimChars line) with
      | some opening =>
          match beforeChars? blockQuote opening with
          | some text => keep (trimChars text) false filled
          | none => keep (trimChars opening) true filled
      | none =>
          if declares (trimChars line) then ([], ended)
          else
            match trimChars line with
            | [] => ([], if filled then ended else searching false filled)
            | '#' :: comment => keep (trimChars comment) false filled
            | _ => ([], searching false filled)

/-- What lines add to the header. -/
def added : Search → List (List Char) → List (List Char)
  | ended, _ => []
  | searching inBlock filled, ls => collect inBlock filled ls

/-- Where the search stands behind lines. -/
def behind (s : Search) (ls : List (List Char)) : Search := ls.foldl (fun s l => (s.step l).2) s

theorem added_nil (s : Search) : s.added [] = [] := by
  cases s <;> simp [added, collect]

theorem added_cons (s : Search) (l : List Char) (ls : List (List Char)) :
    s.added (l :: ls) = (s.step l).1 ++ (s.step l).2.added ls := by
  cases s with
  | ended => rfl
  | searching inBlock filled =>
      cases inBlock with
      | true =>
          simp only [added, collect, step, if_true]
          cases beforeChars? blockQuote (trimChars l) <;> rfl
      | false =>
          simp only [added, collect, step, Bool.false_eq_true, if_false]
          generalize trimChars l = trimmed
          cases afterChars? blockQuote trimmed with
          | some opening =>
              simp only
              cases beforeChars? blockQuote opening <;> rfl
          | none =>
              simp only
              by_cases hdeclares : declares trimmed = true
              · rw [if_pos hdeclares, if_pos hdeclares]
                rfl
              · rw [if_neg hdeclares, if_neg hdeclares]
                cases trimmed with
                | nil => cases filled <;> rfl
                | cons c comment =>
                    by_cases hc : c = '#'
                    · subst hc
                      rfl
                    · simp [hc]

theorem added_append (s : Search) (ls ls' : List (List Char)) :
    s.added (ls ++ ls') = s.added ls ++ (s.behind ls).added ls' := by
  induction ls generalizing s with
  | nil => rw [added_nil]; rfl
  | cons l ls ih =>
      rw [List.cons_append, added_cons, added_cons, ih, List.append_assoc]
      rfl

/-- Whether the search ends with a line at the latest. -/
def stops : Search → List Char → Prop
  | ended, _ => True
  | searching inBlock _, line => inBlock = false ∧ declares (trimChars line) = true

instance : ∀ (s : Search) (line : List Char), Decidable (s.stops line)
  | ended, _ => isTrue trivial
  | searching inBlock _, _ => inferInstanceAs (Decidable (inBlock = false ∧ _ = true))

end Search

open Search

/-- Where the search stands behind the complete lines of a text. -/
def searched (before : List Char) : Search := (searching false false).behind (completeLines before)

theorem text_append (before s : List Char) : text (before ++ s) =
    trimChars (List.intercalate ['\n'] ((searching false false).added (completeLines before) ++
      (searched before).added (lines (openLine before ++ s)))) := by
  rw [searched, ← added_append, ← lines_append]
  rfl

/-! ## A line with which the search ends -/

theorem head_of_declares {l : List Char} (h : declares l = true) :
    ∀ c ∈ l.head?, c ≠ '"' ∧ c ≠ '#' := by
  cases l with
  | nil => exact absurd h (by decide)
  | cons c l =>
      rintro d ⟨⟩
      refine ⟨?_, ?_⟩
      all_goals
        rintro rfl
        simp [declares, declarationKeywords] at h

/-- Outside a block only quotes and comments add something. -/
theorem fst_step_eq_nil {filled : Bool} {l : List Char}
    (h : ∀ c ∈ (trimChars l).head?, c ≠ '"' ∧ c ≠ '#') :
    ((searching false filled).step l).1 = [] := by
  rw [step]
  generalize trimChars l = trimmed at h
  match trimmed with
  | [] => rfl
  | c :: r =>
      have hc := h c rfl
      simp only [blockQuote, afterChars?, if_neg (Ne.symm hc.1)]
      split
      · rfl
      · simp [hc.2]

theorem added_line {s : Search} {l : List Char} (hfeed : '\n' ∉ l) (h : (s.step l).1 = []) :
    s.added (lines l) = [] := by
  rw [lines_of_not_mem hfeed]
  split
  · exact added_nil s
  · rw [added_cons, h, added_nil]
    rfl

variable {s : Search} {l l' : List Char}

theorem added_of_stops (h : s.stops l) (ls : List (List Char)) : s.added (l :: ls) = [] := by
  match s, h with
  | ended, _ => rfl
  | searching false filled, h =>
      have hlast : (searching false filled).step l = ([], ended) := by
        have hquote : afterChars? blockQuote (trimChars l) = none := by
          have hhead := head_of_declares h.2
          generalize trimChars l = trimmed at hhead
          match trimmed with
          | [] => rfl
          | c :: r => rw [blockQuote, afterChars?, if_neg (Ne.symm (hhead c rfl).1)]
        rw [step, hquote]
        simp [h.2]
      rw [added_cons, hlast]
      rfl

/-- What stands on the line in front of the place from where it ends the search adds nothing either. -/
theorem added_of_stops_append (hfeed : '\n' ∉ l) (h : s.stops (l ++ l')) : s.added (lines l) = [] := by
  match s, h with
  | ended, _ => rfl
  | searching false filled, h =>
      refine added_line hfeed (fst_step_eq_nil ?_)
      by_cases hl : trimChars l = []
      · rw [hl]
        rintro c ⟨⟩
      · rw [← head?_trimChars_append hl l']
        exact head_of_declares h.2

/-! ## A line behind which the search goes on -/

theorem exists_searching_of_not_stops (h : ¬ s.stops l) (hink : trimChars l ≠ []) :
    ∃ inBlock filled, (s.step l).2 = searching inBlock filled := by
  match s, h with
  | ended, h => exact absurd trivial h
  | searching true filled, _ =>
      rw [step]
      split <;> exact ⟨_, _, rfl⟩
  | searching false filled, h =>
      have hdeclares : ¬ declares (trimChars l) = true := fun hd => h ⟨rfl, hd⟩
      rw [step]
      split
      · split <;> exact ⟨_, _, rfl⟩
      · rw [if_neg hdeclares]
        split
        · exact absurd (by assumption) hink
        · exact ⟨_, _, rfl⟩
        · exact ⟨_, _, rfl⟩

/-- A comment with `n` crosses. -/
def crosses (n : Nat) : List Char := '#' :: List.replicate n 'x'

theorem lines_crosses (n : Nat) : lines (crosses n) = [crosses n] := by
  have hfeed : '\n' ∉ crosses n := by simp [crosses, List.mem_replicate]
  rw [lines_of_not_mem hfeed, if_neg (by simp [crosses])]

theorem count_crosses (n : Nat) : (crosses n).count 'x' = n := by
  simp [crosses]

/-- As long as the search goes on, a comment is added, inside a block as it stands. -/
theorem exists_count_of_crosses (inBlock filled : Bool) (n : Nat) :
    ∃ t ∈ (searching inBlock filled).added [crosses n], t.count 'x' = n := by
  have hink : isInk 'x' = true := by decide
  have hcount : (trimChars (crosses n)).count 'x' = n := by
    rw [count_trimChars hink, count_crosses]
  rw [added_cons, added_nil, List.append_nil]
  cases inBlock with
  | true =>
      cases h : beforeChars? blockQuote (trimChars (crosses n)) with
      | none => exact ⟨trimChars (crosses n), by simp [step, h, keep], hcount⟩
      | some last =>
          refine ⟨trimChars last, by simp [step, h, keep], ?_⟩
          rw [beforeChars?_eq_some_iff.1 h] at hcount
          rw [count_trimChars hink]
          simpa [blockQuote] using hcount
  | false =>
      have hhead : (trimChars (crosses n)).head? = some '#' := by
        rw [head?_trimChars]
        rfl
      obtain ⟨comment, hcomment⟩ := List.head?_eq_some_iff.1 hhead
      have hdeclares : declares ('#' :: comment) = false :=
        Bool.eq_false_iff.2 fun h => (head_of_declares h '#' rfl).2 rfl
      have hquote : afterChars? blockQuote ('#' :: comment) = none := rfl
      refine ⟨trimChars comment, by simp [step, hcomment, hquote, hdeclares, keep], ?_⟩
      rw [hcomment] at hcount
      rw [count_trimChars hink]
      simpa using hcount

/-! ## What follows a line -/

/-- What stands behind a line end is nothing or another line. -/
def StartsLine (rest : List Char) : Prop := rest = [] ∨ ∃ tail, rest = '\n' :: tail

theorem exists_lines_eq_cons {rest : List Char} (hfeed : '\n' ∉ l) (hl : l ≠ [])
    (hrest : StartsLine rest) : ∃ ls, lines (l ++ rest) = l :: ls := by
  rcases hrest with rfl | ⟨tail, rfl⟩
  · exact ⟨[], by rw [List.append_nil, lines_of_not_mem hfeed, if_neg hl]⟩
  · exact ⟨lines tail, lines_line hfeed tail⟩

variable {before line rest : List Char}

theorem text_eq_of_stops (hfeed : '\n' ∉ line) (hline : line ≠ []) (hrest : StartsLine rest)
    (h : (searched before).stops (openLine before ++ line)) :
    text (before ++ (line ++ rest)) = text before := by
  have hopen : '\n' ∉ openLine before ++ line := by simp [hfeed, not_mem_openLine]
  obtain ⟨ls, hls⟩ := exists_lines_eq_cons hopen (by simp [hline]) hrest
  have hbefore : text before = trimChars (List.intercalate ['\n']
      ((searching false false).added (completeLines before) ++
        (searched before).added (lines (openLine before)))) := by
    simpa using text_append before []
  rw [text_append, ← List.append_assoc, hls, added_of_stops h, hbefore,
    added_of_stops_append (not_mem_openLine before) h]

/-- If the search goes on behind a line, a comment behind the line changes the header. -/
theorem exists_text_ne_of_not_stops (hfeed : '\n' ∉ line)
    (hink : trimChars (openLine before ++ line) ≠ [])
    (h : ¬ (searched before).stops (openLine before ++ line)) :
    ∃ tail, text (before ++ (line ++ '\n' :: tail)) ≠ text before := by
  obtain ⟨inBlock, filled, hnext⟩ := exists_searching_of_not_stops h hink
  obtain ⟨t, ht, hcount⟩ := exists_count_of_crosses inBlock filled ((text before).count 'x' + 1)
  refine ⟨crosses ((text before).count 'x' + 1), fun heq => ?_⟩
  have hopen : '\n' ∉ openLine before ++ line := by simp [hfeed, not_mem_openLine]
  have hadded : t ∈ (searched before).added
      (lines (openLine before ++ (line ++ '\n' :: crosses ((text before).count 'x' + 1)))) := by
    rw [← List.append_assoc, lines_line hopen, lines_crosses, added_cons, hnext]
    exact List.mem_append_right _ ht
  have hle : t.count 'x' ≤ (text before).count 'x' := by
    rw [← heq, text_append before, count_trimChars (by decide)]
    exact count_le_intercalate (List.mem_append_right _ hadded)
  omega

/-- Nothing behind a line can change the header of the text in front of a place on the line exactly when
the search ends with the line at the latest. -/
theorem text_append_eq_iff (hfeed : '\n' ∉ line) (hink : trimChars (openLine before ++ line) ≠ [])
    (hline : line ≠ []) :
    (∀ rest, StartsLine rest → text (before ++ (line ++ rest)) = text before) ↔
      (searched before).stops (openLine before ++ line) := by
  constructor
  · intro h
    refine Classical.byContradiction fun hstops => ?_
    obtain ⟨tail, hne⟩ := exists_text_ne_of_not_stops hfeed hink hstops
    exact hne (h _ (.inr ⟨tail, rfl⟩))
  · exact fun h rest hrest => text_eq_of_stops hfeed hline hrest h

/-! ## Lines without quotes -/

/-- No line that starts with a quote stands among lines. -/
def NoQuoteAhead (ls : List (List Char)) : Prop := ∀ l ∈ ls, ∀ c ∈ (trimChars l).head?, c ≠ '"'

/-- Outside a block, a line that does not start with a quote opens none. -/
theorem step_ne_searching_true {filled filled' : Bool} (h : ∀ c ∈ (trimChars l).head?, c ≠ '"') :
    ((searching false filled).step l).2 ≠ searching true filled' := by
  rw [step]
  generalize trimChars l = trimmed at h
  have hquote : afterChars? blockQuote trimmed = none := by
    match trimmed with
    | [] => rfl
    | c :: r => rw [blockQuote, afterChars?, if_neg (Ne.symm (h c rfl))]
  rw [hquote]
  by_cases hdeclares : declares trimmed = true
  · simp [hdeclares]
  · simp only [if_neg hdeclares]
    split
    · cases filled <;> simp
    · simp [keep]
    · simp

theorem behind_ne_searching_true {ls : List (List Char)} (h : NoQuoteAhead ls) {s : Search}
    (hs : ∀ filled, s ≠ searching true filled) (filled : Bool) : s.behind ls ≠ searching true filled := by
  induction ls generalizing s with
  | nil => exact hs filled
  | cons l ls ih =>
      refine ih (fun l' hl' => h l' (List.mem_cons_of_mem _ hl')) fun filled' => ?_
      match s, hs with
      | ended, _ => exact nofun
      | searching true filled'', hs => exact absurd rfl (hs filled'')
      | searching false _, _ => exact step_ne_searching_true (h l List.mem_cons_self)

end GraphRest.Header
