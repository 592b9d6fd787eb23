import GraphRest.Proofs.Header.Search
import Mathlib.Data.List.TakeDrop
import Mathlib.Data.List.TakeWhile

/-!
# Headers that are read back

A header that is written in front of a schema, as comments or as a block, is read back as it is, whatever
stands on its lines. The metadata takes its title from the first line of the header and its description from
the others, unless the options give a title.
-/

namespace GraphRest.Header

open Text Search

/-- A schema with a header in front of it, each line of the header behind a comment mark. -/
def commented (header rest : List Char) : List Char :=
  unlines ((lines header).map fun l => '#' :: ' ' :: l) ++ rest

/-- A schema with a header in front of it, between a line that opens a block and one that closes it. -/
def quoted (header rest : List Char) : List Char :=
  unlines (blockQuote :: (lines header ++ [blockQuote])) ++ rest

/-- A schema with a header in front of it, in either notation. A line of a block must not close it. -/
inductive Headed (header rest : List Char) : List Char → Prop where
  | comments : Headed header rest (commented header rest)
  | block : (∀ l ∈ lines header, ¬ blockQuote <:+ l) → Headed header rest (quoted header rest)

/-- A header with no blanks around it or around one of its lines. -/
structure Trimmed (header : List Char) : Prop where
  whole : trimChars header = header
  lines : ∀ l ∈ lines header, trimChars l = l

/-- A schema begins with a line that declares something. -/
def BeginsDeclaration (rest : List Char) : Prop :=
  ∃ line ls, lines rest = line :: ls ∧ declares (trimChars line) = true

variable {header rest source l : List Char} {ls : List (List Char)} {filled : Bool}

/-! ## Lines of a header -/

theorem step_comment (h : trimChars l = l) :
    (searching false filled).step ('#' :: ' ' :: l) = keep l false filled := by
  have htrim : trimChars ('#' :: ' ' :: l) = '#' :: dropBlankEnd (' ' :: l) := by
    rw [trimChars, List.dropWhile_cons_of_neg (by decide), dropBlankEnd_cons (by decide)]
  have hcomment : trimChars (dropBlankEnd (' ' :: l)) = l := by
    rw [trimChars_dropBlankEnd, trimChars_cons_of_blank (by decide), h]
  have hdeclares : declares ('#' :: dropBlankEnd (' ' :: l)) = false :=
    Bool.eq_false_iff.2 fun hd => (head_of_declares hd '#' rfl).2 rfl
  rw [step, htrim]
  simp [blockQuote, afterChars?, hdeclares, hcomment]

theorem step_open : (searching false filled).step blockQuote = keep [] true filled := rfl

theorem step_close : (searching true filled).step blockQuote = keep [] false filled := rfl

theorem step_inBlock (h : trimChars l = l) (hquote : ¬ blockQuote <:+ l) :
    (searching true filled).step l = keep l true filled := by
  have hbefore : beforeChars? blockQuote l = none := by
    refine Option.eq_none_iff_forall_ne_some.2 fun t ht => hquote ⟨t, ?_⟩
    exact (beforeChars?_eq_some_iff.1 ht).symm
  rw [step, h, hbefore]

/-! ## Runs of lines -/

theorem added_declaration (h : BeginsDeclaration rest) :
    (searching false filled).added (lines rest) = [] := by
  obtain ⟨line, ls, hlines, hdeclares⟩ := h
  have hstops : (searching false filled).stops line := ⟨rfl, hdeclares⟩
  rw [hlines, added_of_stops hstops]

/-- Comments are kept up to the first declaration, whatever they look like. -/
theorem added_comments (h : ∀ l ∈ ls, trimChars l = l) (hrest : BeginsDeclaration rest) :
    (searching false filled).added (ls.map (fun l => '#' :: ' ' :: l) ++ lines rest) = ls := by
  induction ls generalizing filled with
  | nil => exact added_declaration hrest
  | cons l ls ih =>
      obtain ⟨hl, hls⟩ := List.forall_mem_cons.1 h
      rw [List.map_cons, List.cons_append, added_cons, step_comment hl, keep, ih hls]
      rfl

/-- In a block all lines are kept up to the one that closes it. -/
theorem added_block (h : ∀ l ∈ ls, trimChars l = l) (hquote : ∀ l ∈ ls, ¬ blockQuote <:+ l)
    (hrest : BeginsDeclaration rest) :
    (searching true filled).added (ls ++ blockQuote :: lines rest) = ls ++ [[]] := by
  induction ls generalizing filled with
  | nil =>
      rw [List.nil_append, added_cons, step_close, keep, added_declaration hrest]
      rfl
  | cons l ls ih =>
      obtain ⟨hl, hls⟩ := List.forall_mem_cons.1 h
      obtain ⟨hq, hqs⟩ := List.forall_mem_cons.1 hquote
      rw [List.cons_append, added_cons, step_inBlock hl hq, keep, ih hls hqs]
      rfl

/-! ## The text of a header -/

theorem text_eq (source : List Char) : text source =
    trimChars (List.intercalate ['\n'] ((searching false false).added (lines source))) := rfl

theorem Trimmed.intercalate_lines (h : Trimmed header) :
    List.intercalate ['\n'] (Text.lines header) = header :=
  Text.intercalate_lines (getLast?_ne_of_trimmed h.whole (by decide))

theorem text_commented (h : Trimmed header) (hrest : BeginsDeclaration rest) :
    text (commented header rest) = header := by
  have hfeed : ∀ l ∈ (lines header).map (fun l => '#' :: ' ' :: l), '\n' ∉ l := by
    intro l' hl'
    obtain ⟨l, hl, rfl⟩ := List.mem_map.1 hl'
    simpa using not_mem_of_mem_lines hl
  rw [text_eq, commented, lines_unlines_append hfeed, added_comments h.lines hrest, h.intercalate_lines,
    h.whole]

/-- The empty lines that the marks of a block leave are trimmed away. -/
theorem trimChars_intercalate_framed (ls : List (List Char)) :
    trimChars (List.intercalate ['\n'] ([] :: (ls ++ [[]]))) =
      trimChars (List.intercalate ['\n'] ls) := by
  have hblank : isBlank '\n' = true := by decide
  rw [List.intercalate_cons_of_ne_nil (by simp), List.nil_append, List.singleton_append,
    trimChars_cons_of_blank hblank]
  by_cases hls : ls = []
  · rw [hls]
    rfl
  · rw [intercalate_concat_nil hls, trimChars_concat_of_blank hblank]

theorem text_quoted (h : Trimmed header) (hquote : ∀ l ∈ lines header, ¬ blockQuote <:+ l)
    (hrest : BeginsDeclaration rest) : text (quoted header rest) = header := by
  have hmark : '\n' ∉ blockQuote := by decide
  have hfeed : ∀ l ∈ blockQuote :: (lines header ++ [blockQuote]), '\n' ∉ l := by
    intro l hl
    rw [List.mem_cons, List.mem_append, List.mem_singleton] at hl
    rcases hl with rfl | hl | rfl
    · exact hmark
    · exact not_mem_of_mem_lines hl
    · exact hmark
  have hlines : lines (quoted header rest) =
      blockQuote :: (lines header ++ blockQuote :: lines rest) := by
    rw [quoted, lines_unlines_append hfeed]
    simp
  have hadded : (searching false false).added (lines (quoted header rest)) =
      [] :: (lines header ++ [[]]) := by
    rw [hlines, added_cons, step_open, keep, added_block h.lines hquote hrest]
    rfl
  rw [text_eq, hadded, trimChars_intercalate_framed, h.intercalate_lines, h.whole]

theorem Headed.text_eq (hs : Headed header rest source) (h : Trimmed header)
    (hrest : BeginsDeclaration rest) : text source = header := by
  cases hs with
  | comments => exact text_commented h hrest
  | block hquote => exact text_quoted h hquote hrest

/-! ## The title and the description -/

theorem ne_feed_of_not_mem (h : '\n' ∉ l) : ∀ c ∈ l, decide (c ≠ '\n') = true :=
  fun _ hc => decide_eq_true fun he => h (he ▸ hc)

theorem span_of_not_mem (h : '\n' ∉ l) : l.span (· ≠ '\n') = (l, []) := by
  rw [List.span_eq_takeWhile_dropWhile, List.takeWhile_eq_self_iff.2 (ne_feed_of_not_mem h),
    List.dropWhile_eq_nil_iff.2 (ne_feed_of_not_mem h)]

theorem span_line (h : '\n' ∉ l) (s : List Char) :
    (l ++ '\n' :: s).span (· ≠ '\n') = (l, '\n' :: s) := by
  rw [List.span_eq_takeWhile_dropWhile, List.takeWhile_append_of_pos (ne_feed_of_not_mem h),
    List.dropWhile_append_of_pos (ne_feed_of_not_mem h)]
  simp

theorem splitTitle_of_trimmed (h : Trimmed header) : splitTitle header =
    ((lines header).headD [], trimChars (List.intercalate ['\n'] (lines header).tail)) := by
  have hjoin := h.intercalate_lines
  cases hlines : lines header with
  | nil =>
      rw [hlines] at hjoin
      rw [← hjoin]
      rfl
  | cons first others =>
      have hmem : first ∈ lines header := hlines ▸ List.mem_cons_self
      have hfeed := not_mem_of_mem_lines hmem
      have htrim := h.lines first hmem
      rw [hlines] at hjoin
      cases others with
      | nil =>
          rw [List.intercalate_singleton] at hjoin
          rw [← hjoin, splitTitle, span_of_not_mem hfeed]
          exact Prod.ext htrim rfl
      | cons second others =>
          rw [List.intercalate_cons_of_ne_nil (List.cons_ne_nil _ _), List.append_assoc,
            List.singleton_append] at hjoin
          rw [← hjoin, splitTitle, span_line hfeed]
          exact Prod.ext htrim rfl

/-- A header that says something says something on its first line. -/
theorem headD_lines_ne_nil (h : Trimmed header) (hne : header ≠ []) : (lines header).headD [] ≠ [] := by
  cases header with
  | nil => exact absurd rfl hne
  | cons c s =>
      have hfeed : c ≠ '\n' := by
        rintro rfl
        exact absurd (isBlank_of_trimmed_cons h.whole) (by decide)
      rw [Text.lines, if_neg hfeed]
      split <;> exact List.cons_ne_nil _ _

/-- A text with a rule below it, if there is any text. -/
def aboveRule (text : List Char) : String :=
  if text = [] then "" else String.ofList text ++ "\n\n---\n\n"

theorem withFooter_eq (description : List Char) (version : String) :
    withFooter description version = aboveRule description ++ footer version := by
  rw [withFooter, aboveRule]
  by_cases h : description = []
  · rw [h]
    exact String.empty_append.symm
  · rw [if_neg h, if_neg (by simpa using h)]

theorem info_of_trimmed (h : Trimmed header) (hne : header ≠ []) {source : String}
    (htext : text source.toList = header) {options : Options} (htitle : options.title = none) :
    info options source =
      { title := String.ofList ((lines header).headD [])
        description := some (aboveRule (trimChars (List.intercalate ['\n'] (lines header).tail)) ++
          footer options.version)
        version := options.version } := by
  have hfirst : ((lines header).headD []).isEmpty = false := by
    simpa using headD_lines_ne_nil h hne
  rw [info, htext, splitTitle_of_trimmed h, htitle]
  simp only [hfirst, Bool.false_eq_true, if_false, withFooter_eq]

theorem info_of_title {source : String} {title : String} {options : Options}
    (htitle : options.title = some title) :
    info options source =
      { title
        description := some (aboveRule (text source.toList) ++ footer options.version)
        version := options.version } := by
  rw [info, htitle]
  simp only [withFooter_eq]

/-- A header in front of a schema is read back as it is from either notation. If it says something and the
options give no title, its first line is the title and the others are the description; with a title of the
options all of it is the description. -/
theorem header_read_back (h : Trimmed header) (hrest : BeginsDeclaration rest)
    (hs : Headed header rest source) :
    text source = header ∧ (header ≠ [] → ∀ options : Options,
      (options.title = none →
        info options (String.ofList source) =
          { title := String.ofList ((lines header).headD [])
            description := some (aboveRule (trimChars (List.intercalate ['\n'] (lines header).tail)) ++
              ("Converted from GraphQL (" ++ options.version ++ ")"))
            version := options.version }) ∧
      ∀ title, options.title = some title →
        info options (String.ofList source) =
          { title
            description := some (aboveRule header ++
              ("Converted from GraphQL (" ++ options.version ++ ")"))
            version := options.version }) := by
  have htext : text source = header := hs.text_eq h hrest
  have hread : text (String.ofList source).toList = header := by rw [String.toList_ofList, htext]
  refine ⟨htext, fun hne options => ⟨fun htitle => info_of_trimmed h hne hread htitle, ?_⟩⟩
  intro title htitle
  rw [info_of_title htitle, hread]
  rfl

/-- A header with an empty line and with lines that look like a declaration and like a comment. -/
def entangled : List Char := "Blog API\n\ntype Post is what\n# stands for a post".toList

/-- A schema without a header. -/
def bare : List Char := "type Query \x7b a: Int \x7d\n# late".toList

theorem entangled_read_back :
    text (commented entangled bare) = entangled ∧ text (quoted entangled bare) = entangled ∧
    info {} (String.ofList (commented entangled bare)) =
      { title := "Blog API"
        description := some
          "type Post is what\n# stands for a post\n\n---\n\nConverted from GraphQL (1.0.0)"
        version := "1.0.0" } := by
  have htrimmed : Trimmed entangled := ⟨by decide +kernel, by decide +kernel⟩
  have hrest : BeginsDeclaration bare :=
    ⟨"type Query \x7b a: Int \x7d".toList, ["# late".toList], by decide +kernel, by decide +kernel⟩
  obtain ⟨hcomments, hinfo⟩ := header_read_back htrimmed hrest .comments
  obtain ⟨hblock, -⟩ := header_read_back htrimmed hrest (.block (by decide +kernel))
  refine ⟨hcomments, hblock, ?_⟩
  rw [(hinfo (by decide +kernel) {}).1 rfl]
  decide +kernel

end GraphRest.Header
