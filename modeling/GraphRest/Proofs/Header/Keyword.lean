import GraphRest.Proofs.Conversion.Finished
import GraphRest.Proofs.Header.Search
import GraphRest.Proofs.Sdl.FirstKeyword
import GraphRest.Proofs.Sdl.Names

/-!
# The header and the first definition

A schema source has its first definition behind a header, and the search for the header is to end where
the keyword of the definition stands. It does so when it has ended before or knows the line of the keyword,
outside a block, as one that declares something; otherwise what stands behind the line can get into the
header. In front of a definition without a description no block is open.
-/

namespace GraphRest

open Text

namespace Header

/-! ## What stands in front of a first keyword -/

variable {c : Char} {s w : List Char}

theorem lines_cons_of_ne (h : c ≠ '\n') (s : List Char) :
    lines (c :: s) = (c :: (lines s).headD []) :: (lines s).tail := by
  rw [lines, if_neg h]
  cases lines s <;> rfl

theorem tail_lines_append (h : '\n' ∉ w) (s : List Char) : (lines (w ++ s)).tail = (lines s).tail := by
  induction w with
  | nil => rfl
  | cons c w ih =>
      simp only [List.mem_cons, not_or] at h
      rw [List.cons_append, lines_cons_of_ne (Ne.symm h.1), List.tail_cons, ih h.2]

theorem noQuoteAhead_cons {l : List Char} {ls : List (List Char)}
    (hl : ∀ c ∈ (trimChars l).head?, c ≠ '"') (hls : NoQuoteAhead ls) : NoQuoteAhead (l :: ls) := by
  intro l' hl'
  rcases List.mem_cons.1 hl' with rfl | hl'
  · exact hl
  · exact hls l' hl'

theorem noQuoteAhead_lines_nil : NoQuoteAhead (lines []) := List.forall_mem_nil _

theorem NoQuoteAhead.tail {ls : List (List Char)} (h : NoQuoteAhead ls) : NoQuoteAhead ls.tail :=
  fun l hl => h l (List.mem_of_mem_tail hl)

/-- A blank at the start of a line and a mark that is no quote open no block. -/
theorem noQuoteAhead_lines_cons (hc : c ≠ '"') (h : NoQuoteAhead (lines s)) :
    NoQuoteAhead (lines (c :: s)) := by
  by_cases hfeed : c = '\n'
  · subst hfeed
    refine noQuoteAhead_cons ?_ h
    rintro d ⟨⟩
  · rw [lines_cons_of_ne hfeed]
    refine noQuoteAhead_cons ?_ h.tail
    rw [head?_trimChars]
    by_cases hblank : isBlank c = true
    · rw [List.dropWhile_cons_of_pos hblank, ← head?_trimChars]
      cases hs : lines s with
      | nil => rintro d ⟨⟩
      | cons l ls => exact h l (hs ▸ List.mem_cons_self)
    · rw [List.dropWhile_cons_of_neg hblank]
      rintro d ⟨⟩
      exact hc

theorem noQuoteAhead_lines_comment (hw : '\n' ∉ w) (h : NoQuoteAhead (lines s)) :
    NoQuoteAhead (lines ('#' :: (w ++ s))) := by
  rw [lines_cons_of_ne (by decide)]
  refine noQuoteAhead_cons ?_ (tail_lines_append hw s ▸ h.tail)
  rw [head?_trimChars]
  rintro d ⟨⟩
  decide

open Sdl in
/-- In front of the first lexeme no line starts with a quote. -/
theorem exists_noQuoteAhead_of_cut : ∀ {fuel : Nat} {s : List Char} {l : Lexeme} {ls : List Lexeme},
    cut fuel s = some (l :: ls) → ∃ before, s = before ++ l.source ∧ NoQuoteAhead (lines before)
  | 0, [], _, _, h => by cases h
  | _ + 1, [], _, _, h => by cases h
  | 0, _ :: _, _, _, h => by cases h
  | fuel + 1, c :: s, l, ls, h => by
    rw [cut] at h
    split at h
    · rename_i hignored
      obtain ⟨before, rfl, hbefore⟩ := exists_noQuoteAhead_of_cut h
      have hc : c ≠ '"' := by
        rintro rfl
        exact absurd hignored (by decide)
      exact ⟨c :: before, rfl, noQuoteAhead_lines_cons hc hbefore⟩
    · split at h
      · rename_i hcomment
        obtain ⟨before, hs, hbefore⟩ := exists_noQuoteAhead_of_cut h
        refine ⟨c :: (s.takeWhile (fun d => !breaksLine d) ++ before), ?_, ?_⟩
        · rw [List.cons_append, List.append_assoc, ← hs, List.takeWhile_append_dropWhile]
        · rw [hcomment]
          refine noQuoteAhead_lines_comment (fun hfeed => ?_) hbefore
          exact absurd (List.all_eq_true.1 List.all_takeWhile '\n' hfeed) (by decide)
      · simp only [Option.bind_eq_bind, Option.bind_eq_some_iff, Prod.exists, Option.pure_def,
          Option.some.injEq] at h
        obtain ⟨t, r, -, ls', -, hl⟩ := h
        obtain ⟨rfl, -⟩ := List.cons.inj hl
        exact ⟨[], rfl, noQuoteAhead_lines_nil⟩

open Sdl in
/-- In front of a keyword without a description no block is open. -/
theorem searched_ne_searching_true {source : List Char} {k : Nat}
    (hk : keywordPosition? source = some k)
    (hplain : ∀ d s ls, lexemes? source ≠ some (⟨.string d, s⟩ :: ls)) (filled : Bool) :
    searched (source.take k) ≠ .searching true filled := by
  obtain ⟨ls, hls, hl⟩ := Option.bind_eq_some_iff.1 hk
  cases ls with
  | nil => cases hl
  | cons l ls =>
      obtain ⟨before, hbefore, hnone⟩ := exists_noQuoteAhead_of_cut hls
      have hposition : source.length - l.source.length = k := by
        obtain ⟨t, s⟩ := l
        cases t with
        | string d => exact absurd hls (hplain d s ls)
        | _ => exact Option.some.inj hl
      rw [← hposition, (drop_position hbefore.symm).1]
      have hlines := lines_append before []
      rw [List.append_nil] at hlines
      refine behind_ne_searching_true (fun l hl => hnone l ?_) (fun _ h => by cases h) filled
      rw [hlines]
      exact List.mem_append_left _ hl

end Header

namespace Conversion

open Sdl Header

variable {g : TypeGraph} {options : Options} {source : String} {c : Conversion}

theorem info_document (hg : TypeGraph.ofSource? source.toList = some g)
    (hc : convert? options source = some c) : c.document.info = Header.info options source :=
  (holds_document hg hc).info

/-- The title and the description of a document depend only on the header of its source. -/
theorem info_eq_of_text_eq {source source' : String}
    (h : Header.text source.toList = Header.text source'.toList) (options : Options) :
    Header.info options source = Header.info options source' := by
  rw [Header.info, Header.info, h]

theorem isInk_of_startsName {a : Char} (h : startsName a = true) : isInk a = true := by
  rw [isInk, isBlank_of_isNameChar (isNameChar_of_startsName h)]
  rfl

/-- What stands on a line from a position on. -/
def restOfLine (source : List Char) (k : Nat) : List Char := (source.drop k).takeWhile (· ≠ '\n')

theorem not_mem_restOfLine (source : List Char) (k : Nat) : '\n' ∉ restOfLine source k :=
  fun h => absurd (List.all_eq_true.1 List.all_takeWhile '\n' h) (by decide)

theorem exists_eq_append_restOfLine (source : List Char) (k : Nat) :
    ∃ rest, source = source.take k ++ (restOfLine source k ++ rest) ∧ StartsLine rest := by
  refine ⟨(source.drop k).dropWhile (· ≠ '\n'), ?_, ?_⟩
  · rw [restOfLine, List.takeWhile_append_dropWhile, List.take_append_drop]
  · cases hs : (source.drop k).dropWhile (· ≠ '\n') with
    | nil => exact .inl rfl
    | cons d r =>
        have hd := List.head?_dropWhile_not (· ≠ '\n') (source.drop k)
        rw [hs] at hd
        have hfeed : d = '\n' := by simpa using hd
        exact .inr ⟨r, by rw [hfeed]⟩

/-- Whether the search for the header of a source ends with the line on which a keyword stands at a
position. -/
def EndsAt (source : List Char) (k : Nat) : Prop :=
  (searched (source.take k)).stops (openLine (source.take k) ++ restOfLine source k)

/-- The header of a source is that of what stands in front of the first keyword, whatever follows the line
of the keyword, exactly when the search for it ends with this line at the latest: it has ended before, or
no block is open and the line is known as one that declares something. Without a description in front of
the keyword, no block is open. -/
theorem header_before_keyword_iff (hg : TypeGraph.ofSource? source.toList = some g) :
    ∃ k, keywordPosition? source.toList = some k ∧
      ((∀ rest, StartsLine rest →
          Header.text (source.toList.take k ++ (restOfLine source.toList k ++ rest)) =
            Header.text (source.toList.take k)) ↔ EndsAt source.toList k) ∧
      (EndsAt source.toList k →
        Header.text source.toList = Header.text (source.toList.take k) ∧
        ∀ options c, convert? options source = some c →
          c.document.info = Header.info options (String.ofList (source.toList.take k))) ∧
      ((∀ d s ls, lexemes? source.toList ≠ some (⟨.string d, s⟩ :: ls)) →
        ∀ filled, searched (source.toList.take k) ≠ .searching true filled) := by
  obtain ⟨k, a, s, hk, hdrop, ha⟩ := exists_keywordPosition hg
  have hfeed := not_mem_restOfLine source.toList k
  have hmem : a ∈ restOfLine source.toList k := by
    have hne : a ≠ '\n' := by
      rintro rfl
      exact absurd ha (by decide)
    rw [restOfLine, hdrop, List.takeWhile_cons_of_pos (by simpa using hne)]
    exact List.mem_cons_self
  have hink := trimChars_ne_nil (isInk_of_startsName ha)
    (List.mem_append_right (openLine (source.toList.take k)) hmem)
  have hline := List.ne_nil_of_mem hmem
  refine ⟨k, hk, text_append_eq_iff hfeed hink hline, fun hends => ?_, searched_ne_searching_true hk⟩
  obtain ⟨rest, hsource, hrest⟩ := exists_eq_append_restOfLine source.toList k
  have htext : Header.text source.toList = Header.text (source.toList.take k) := by
    conv_lhs => rw [hsource]
    exact text_eq_of_stops hfeed hline hrest hends
  refine ⟨htext, fun options c hc => ?_⟩
  rw [info_document hg hc]
  exact info_eq_of_text_eq (by rw [htext, String.toList_ofList]) options

instance (source : List Char) (k : Nat) : Decidable (EndsAt source k) :=
  inferInstanceAs (Decidable (Search.stops _ _))

/-- A schema with a header of two lines, and a comment behind its first definition. -/
def headed : String := "# Shop\n# All that is sold\ntype Query \x7b a: Int \x7d\n# Internal notes"

theorem headed_header : ∃ g, TypeGraph.ofSource? headed.toList = some g ∧
    Header.text headed.toList = Header.text "# Shop\n# All that is sold\n".toList := by
  obtain ⟨g, hg, hk, hends, htake⟩ := exists_graph headed
    (fun _ => keywordPosition? headed.toList = some 26 ∧ EndsAt headed.toList 26 ∧
      headed.toList.take 26 = "# Shop\n# All that is sold\n".toList) (by decide +kernel)
  obtain ⟨k, hk', -, hheader, -⟩ := header_before_keyword_iff hg
  obtain rfl : k = 26 := Option.some.inj (hk'.symm.trans hk)
  have htext := (hheader hends).1
  rw [htake] at htext
  exact ⟨g, hg, htext⟩

/-- A schema without a header whose first keyword has a tab behind it. -/
def tabbed : String := "type\tQuery \x7b a: Int \x7d\n# Internal notes"

/-- A comment behind the first definition gets into the header. -/
theorem tabbed_header_differs : ∃ g, TypeGraph.ofSource? tabbed.toList = some g ∧
    keywordPosition? tabbed.toList = some 0 ∧
    Header.text tabbed.toList ≠ Header.text (tabbed.toList.take 0) ∧
    (Header.info {} tabbed).title = "Internal notes" :=
  exists_graph tabbed
    (fun _ => keywordPosition? tabbed.toList = some 0 ∧
      Header.text tabbed.toList ≠ Header.text (tabbed.toList.take 0) ∧
      (Header.info {} tabbed).title = "Internal notes") (by decide +kernel)

end Conversion

end GraphRest
