import GraphRest.Naming.Title
import GraphRest.Proofs.Naming.Summary
import GraphRest.Proofs.Sdl.Names
import GraphRest.Proofs.Text.Basic
import GraphRest.Proofs.Text.Case

/-!
# Titles of names

The title of a name has nothing in it that ends a sentence: no mark, and behind each of its spaces a
capital. So a description with the title in front is cut right behind the title. A title is the capitalized
name with a space put in front of each further capital, and names with one title differ at most in the case
of their first letter.
-/

namespace GraphRest.Naming

open Sdl Text

section

variable {n : String} {c : Char} {r s : List Char}

theorem isNameChar_toUpper (h : isNameChar c = true) : isNameChar c.toUpper = true := by
  by_cases hc : c.isLower = true
  · have hupper : c.toUpper.isUpper = true := by simp [Char.isAlpha, hc]
    exact isNameChar_of_isUpper hupper
  · rwa [Char.toUpper_eq_of_not_isLower hc]

/-! ## No delimiter in a title -/

theorem delimiterAhead_of_isNameChar (h : isNameChar c = true) (s : List Char) :
    delimiterAhead (c :: s) = false := by
  have hne (x : Char) (hx : isNameChar x = false) : x ≠ c := by
    rintro rfl
    rw [hx] at h
    cases h
  simp [delimiterAhead, sentenceDelimiters, List.isPrefixOf, hne '.' rfl, hne '!' rfl, hne '?' rfl,
    hne ':' rfl, hne ';' rfl, hne ' ' rfl]

theorem delimiterAhead_space (h : isNameChar c = true) (s : List Char) :
    delimiterAhead (' ' :: c :: s) = false := by
  have hne : '-' ≠ c := by
    rintro rfl
    cases h
  simp [delimiterAhead, sentenceDelimiters, List.isPrefixOf, hne]

theorem firstSentence?_cons_of_isNameChar (h : isNameChar c = true) (s : List Char) :
    firstSentence? (c :: s) = (firstSentence? s).map (c :: ·) :=
  firstSentence?_of_not_delimiterAhead (delimiterAhead_of_isNameChar h s)

theorem spaceWords_cons (c : Char) (r : List Char) :
    spaceWords (c :: r) = (if c.isUpper then [' ', c] else [c]) ++ spaceWords r :=
  List.flatMap_cons

/-- Behind the words of a name the search for a delimiter goes on. -/
theorem firstSentence?_spaceWords_append (hr : ∀ c ∈ r, isNameChar c = true) (s : List Char) :
    firstSentence? (spaceWords r ++ s) = (firstSentence? s).map (spaceWords r ++ ·) := by
  induction r with
  | nil => simp [spaceWords]
  | cons c r ih =>
      have hc := hr c List.mem_cons_self
      have hrest := ih fun d hd => hr d (List.mem_cons_of_mem _ hd)
      rw [spaceWords_cons]
      split
      · simp [firstSentence?_of_not_delimiterAhead (delimiterAhead_space hc _),
          firstSentence?_cons_of_isNameChar hc, hrest, Function.comp_def]
      · simp [firstSentence?_cons_of_isNameChar hc, hrest, Function.comp_def]

theorem exists_toList_title (hn : isName n = true) : ∃ c r, isNameChar c = true ∧
    (∀ d ∈ r, isNameChar d = true) ∧ (title n).toList = c :: spaceWords r := by
  have hchars : ∀ c ∈ n.toList, isNameChar c = true := fun _ => isNameChar_of_mem hn
  rw [isName] at hn
  rw [title]
  cases h : n.toList with
  | nil => simp [h] at hn
  | cons c r =>
      rw [h] at hchars
      have hc := hchars c List.mem_cons_self
      refine ⟨c.toUpper, r, isNameChar_toUpper hc, ?_, ?_⟩
      · intro d hd
        exact hchars d (List.mem_cons_of_mem _ hd)
      · simp [upperChar_of_lt (isNameChar_lt hc)]

theorem firstSentence?_title_append (hn : isName n = true) (s : List Char) :
    firstSentence? ((title n).toList ++ s) = (firstSentence? s).map ((title n).toList ++ ·) := by
  obtain ⟨c, r, hc, hr, htitle⟩ := exists_toList_title hn
  rw [htitle, List.cons_append, firstSentence?_cons_of_isNameChar hc,
    firstSentence?_spaceWords_append hr, Option.map_map]
  rfl

/-! ## Titles are trimmed -/

theorem exists_spaceWords_concat (r : List Char) (c : Char) :
    ∃ s, spaceWords (r ++ [c]) = s ++ [c] := by
  rw [spaceWords, List.flatMap_append, List.flatMap_singleton]
  split
  · exact ⟨spaceWords r ++ [' '], by simp [spaceWords]⟩
  · exact ⟨spaceWords r, rfl⟩

theorem trimChars_title (hn : isName n = true) : trimChars (title n).toList = (title n).toList := by
  obtain ⟨c, r, hc, hr, htitle⟩ := exists_toList_title hn
  have hlast : ∃ s d, isNameChar d = true ∧ c :: spaceWords r = s ++ [d] := by
    rcases List.eq_nil_or_concat' r with rfl | ⟨r, d, rfl⟩
    · exact ⟨[], c, hc, rfl⟩
    · obtain ⟨s, hs⟩ := exists_spaceWords_concat r d
      exact ⟨c :: s, d, hr d (by simp), by rw [hs, List.cons_append]⟩
  obtain ⟨s, d, hd, hs⟩ := hlast
  rw [htitle, trimChars, List.dropWhile_cons_of_neg (by simp [isBlank_of_isNameChar hc]), hs]
  exact dropBlankEnd_concat_of_ink (isBlank_of_isNameChar hd) s

/-! ## Descriptions with a title -/

theorem titledDescription_empty (n : String) : titledDescription n "" = title n := rfl

theorem titledDescription_of_no_verb {d : String} (hd : d ≠ "")
    (hverb : ∀ v ∈ actionVerbs, beginsWith d v = false) :
    titledDescription n d = title n ++ " - " ++ d := by
  have hany : actionVerbs.any (beginsWith d) = false := by simpa using hverb
  rw [titledDescription, if_neg (by simpa using hd), if_neg (by simp [hany])]

theorem summarise_title (hn : isName n = true) : summarise (title n) = ⟨title n, title n⟩ := by
  refine summarise_of_none ?_
  simpa [firstSentence?] using firstSentence?_title_append hn []

/-- Whatever follows the mark behind a title, the title is the summary. -/
theorem summarise_title_append (hn : isName n = true) (d : String) :
    summarise (title n ++ " - " ++ d) = ⟨title n, trim (title n ++ " - " ++ d)⟩ := by
  have hfront : firstSentence? (title n ++ " - " ++ d).toList = some (title n).toList := by
    have hmark : firstSentence? (" - ".toList ++ d.toList) = some [] :=
      firstSentence?_of_delimiterAhead (by simp [delimiterAhead, sentenceDelimiters, List.isPrefixOf])
    rw [String.toList_append, String.toList_append, List.append_assoc,
      firstSentence?_title_append hn, hmark, Option.map_some, List.append_nil]
  rw [summarise_of_some hfront, trimChars_title hn, String.ofList_toList]

end

/-! ## Spaces in titles -/

/-- A text with spaces put in, each right in front of a letter `A` to `Z`, and how many of them. -/
inductive Spaced : List Char → List Char → Nat → Prop where
  | nil : Spaced [] [] 0
  | keep (c : Char) {s t : List Char} {k : Nat} (h : Spaced s t k) : Spaced (c :: s) (c :: t) k
  | space {c : Char} {s t : List Char} {k : Nat} (hc : c.isUpper = true) (h : Spaced s t k) :
      Spaced (c :: s) (' ' :: c :: t) (k + 1)

/-- Two texts differ at most in the case of their first letter. -/
structure SameButCase (m n : String) : Prop where
  first : m.toList.head?.map Char.toLower = n.toList.head?.map Char.toLower
  rest : m.toList.tail = n.toList.tail

variable {m n : String} {s t : List Char} {k : Nat}

/-! ## Putting spaces in -/

/-- Without spaces the text is the same as before. -/
theorem Spaced.filter_eq (h : Spaced s t k) : t.filter (· ≠ ' ') = s.filter (· ≠ ' ') := by
  induction h with
  | nil => rfl
  | keep c _ ih => rw [List.filter_cons, List.filter_cons, ih]
  | space _ _ ih => rw [List.filter_cons_of_neg (by decide), List.filter_cons, List.filter_cons, ih]

theorem Spaced.count_eq (h : Spaced s t k) : t.count ' ' = s.count ' ' + k := by
  induction h with
  | nil => rfl
  | keep c _ ih => rw [List.count_cons, List.count_cons, ih, Nat.add_right_comm]
  | space _ _ ih =>
      rw [List.count_cons_self, List.count_cons, List.count_cons, ih]
      omega

/-- Every capital gets a space, and nothing else does. -/
theorem spaced_spaceWords (s : List Char) : Spaced s (spaceWords s) (s.countP Char.isUpper) := by
  induction s with
  | nil => exact .nil
  | cons c s ih =>
      rw [spaceWords_cons]
      cases hc : c.isUpper with
      | true =>
          rw [List.countP_cons_of_pos hc]
          exact .space hc ih
      | false =>
          rw [List.countP_cons_of_neg (by simp [hc])]
          exact .keep c ih

/-! ## Titles -/

/-- The first character of a text in upper case, if there is one. -/
def upperFront (n : String) : List Char := (n.toList.take 1).flatMap upperChar

theorem toList_title (n : String) : (title n).toList = upperFront n ++ spaceWords n.toList.tail := by
  rw [title, upperFront]
  cases n.toList with
  | nil => rfl
  | cons c r => simp

theorem toList_capitalize_eq (n : String) : (capitalize n).toList = upperFront n ++ n.toList.tail := by
  rw [capitalize, upperFront]
  cases n.toList with
  | nil => rfl
  | cons c r => simp

theorem filter_title (n : String) :
    (title n).toList.filter (· ≠ ' ') = (capitalize n).toList.filter (· ≠ ' ') := by
  rw [toList_title, toList_capitalize_eq, List.filter_append, List.filter_append,
    (spaced_spaceWords n.toList.tail).filter_eq]

theorem count_title (n : String) : (title n).toList.count ' ' =
    (capitalize n).toList.count ' ' + n.toList.tail.countP Char.isUpper := by
  rw [toList_title, toList_capitalize_eq, List.count_append, List.count_append,
    (spaced_spaceWords n.toList.tail).count_eq, Nat.add_assoc]

/-! ## Names of a title -/

theorem ascii_of_isName (hn : isName n = true) : Ascii n :=
  fun _ hc => isNameChar_lt (isNameChar_of_mem hn hc)

/-- There is no space to lose in a capitalized name. -/
theorem filter_capitalize (hn : isName n = true) :
    (capitalize n).toList.filter (· ≠ ' ') = (capitalize n).toList := by
  have hchars : ∀ c ∈ (capitalize n).toList, isNameChar c = true := by
    rw [toList_capitalize (ascii_of_isName hn)]
    have hname : ∀ c ∈ n.toList, isNameChar c = true := fun _ => isNameChar_of_mem hn
    cases hl : n.toList with
    | nil => exact nofun
    | cons d r =>
        rw [hl, List.forall_mem_cons] at hname
        exact List.forall_mem_cons.2 ⟨isNameChar_toUpper hname.1, hname.2⟩
  refine List.filter_eq_self.2 fun c hc => decide_eq_true ?_
  rintro rfl
  exact absurd (hchars ' ' hc) (by decide)

theorem toUpper_eq_iff (c d : Char) : c.toUpper = d.toUpper ↔ c.toLower = d.toLower := by
  constructor <;> intro h
  · rw [← Char.toLower_toUpper_eq_toLower, h, Char.toLower_toUpper_eq_toLower]
  · rw [← Char.toUpper_toLower_eq_toUpper, h, Char.toUpper_toLower_eq_toUpper]

theorem capitalize_eq_iff (hm : Ascii m) (hn : Ascii n) :
    capitalize m = capitalize n ↔ SameButCase m n := by
  have hcases (x y : List Char) : x.modifyHead Char.toUpper = y.modifyHead Char.toUpper ↔
      x.head?.map Char.toLower = y.head?.map Char.toLower ∧ x.tail = y.tail := by
    cases x <;> cases y <;> simp [toUpper_eq_iff]
  rw [← String.toList_inj, toList_capitalize hm, toList_capitalize hn, hcases]
  exact ⟨fun ⟨hfirst, hrest⟩ => ⟨hfirst, hrest⟩, fun ⟨hfirst, hrest⟩ => ⟨hfirst, hrest⟩⟩

theorem title_eq_of_sameButCase (hm : Ascii m) (hn : Ascii n) (h : SameButCase m n) :
    title m = title n := by
  have hcapital : upperFront m ++ m.toList.tail = upperFront n ++ n.toList.tail := by
    rw [← toList_capitalize_eq, ← toList_capitalize_eq, (capitalize_eq_iff hm hn).2 h]
  rw [h.rest, List.append_cancel_right_eq] at hcapital
  rw [← String.toList_inj, toList_title, toList_title, h.rest, hcapital]

/-- A name is told by its title but for the case of its first letter. -/
theorem title_eq_iff (hm : isName m = true) (hn : isName n = true) :
    title m = title n ↔ SameButCase m n := by
  have hascii : Ascii m ∧ Ascii n := ⟨ascii_of_isName hm, ascii_of_isName hn⟩
  refine ⟨fun h => (capitalize_eq_iff hascii.1 hascii.2).1 ?_,
    title_eq_of_sameButCase hascii.1 hascii.2⟩
  rw [← String.toList_inj]
  calc (capitalize m).toList
      = (title m).toList.filter (· ≠ ' ') := by rw [filter_title, filter_capitalize hm]
    _ = (title n).toList.filter (· ≠ ' ') := by rw [h]
    _ = (capitalize n).toList := by rw [filter_title, filter_capitalize hn]

/-- A title is the capitalized name with spaces put in, one right in front of every letter `A` to `Z` behind the
first character. Among names one title is shared just by those that differ at most in the case of their first
letter. -/
theorem title_only_adds_spaces :
    (∀ n, (title n).toList.filter (· ≠ ' ') = (capitalize n).toList.filter (· ≠ ' ') ∧
      (title n).toList.count ' ' =
        (capitalize n).toList.count ' ' + n.toList.tail.countP Char.isUpper ∧
      ∃ front words, (capitalize n).toList = front ++ n.toList.tail ∧
        (title n).toList = front ++ words ∧
        Spaced n.toList.tail words (n.toList.tail.countP Char.isUpper)) ∧
    ∀ m n, isName m = true → isName n = true → (title m = title n ↔ SameButCase m n) := by
  refine ⟨fun n => ⟨filter_title n, count_title n, ?_⟩, fun m n hm hn => title_eq_iff hm hn⟩
  exact ⟨upperFront n, spaceWords n.toList.tail, toList_capitalize_eq n, toList_title n,
    spaced_spaceWords n.toList.tail⟩

theorem userID_told_by_title : isName "userID" = true ∧ isName "UserID" = true ∧
    title "userID" = title "UserID" ∧ SameButCase "userID" "UserID" := by
  have huser : isName "userID" = true := by decide
  have hUser : isName "UserID" = true := by decide
  have htitle : title "userID" = title "UserID" := by decide +kernel
  exact ⟨huser, hUser, htitle, (title_only_adds_spaces.2 _ _ huser hUser).1 htitle⟩

/-- The capitals that a first character becomes get no space, and neither do small letters behind a space. -/
example : title "ßaB cD" = "SSa B c D" := by decide +kernel

end GraphRest.Naming
