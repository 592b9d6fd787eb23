import GraphRest.Proofs.Naming.CustomEndings

/-!
# Regular endings

What the singular of a regular plural is, under rules without custom entries. A plural in `es` or `ies` is read
back by the rule that formed it, but a word with the default ending may show the ending of one of these
rules. Main statements: the words with the default ending that come back under any such rules, and all words
that come back under the default rules.
-/

namespace GraphRest.InflectionRules

open Text

variable {rules : InflectionRules} {word stem base ending e : String} {side : Side}

theorem longestMatch?_of_custom_empty (hc : rules.custom = .empty) :
    rules.longestMatch? side word = none := by
  rw [longestMatch?, hc]
  rfl

/-! ## Plurals -/

theorem takesEs_iff : rules.takesEs word = true ↔
    ∃ e ∈ rules.esSuffixes, e ≠ "" ∧ endsWith word e = true := by
  simp [takesEs]

theorem iesStem?_eq_some_iff : rules.iesStem? word = some stem ↔ rules.iesSuffix ≠ "" ∧
    word = stem ++ rules.iesSuffix ∧ ∃ c, stem.toList.getLast? = some c ∧ isVowel c = false := by
  rw [iesStem?]
  split
  · rename_i hempty
    simp [String.isEmpty_iff.1 hempty]
  · rename_i hne
    rw [String.isEmpty_iff] at hne
    simp [hne, Option.filter_eq_some_iff, before?_eq_some_iff, Option.any_eq_true]

/-- Neither the rule for `es` nor the one for `ies` applies to a word, so it takes the default ending. -/
structure TakesDefault (rules : InflectionRules) (word : String) : Prop where
  es : ∀ e ∈ rules.esSuffixes, e ≠ "" → endsWith word e = false
  ies : rules.iesSuffix ≠ "" → ∀ (stem : String) (c : Char),
    word = stem.push c ++ rules.iesSuffix → isVowel c = true

theorem takesDefault_iff :
    TakesDefault rules word ↔ rules.takesEs word = false ∧ rules.iesStem? word = none := by
  constructor
  · intro h
    refine ⟨?_, ?_⟩
    · rw [Bool.eq_false_iff]
      intro hes
      obtain ⟨e, he, hne, hends⟩ := takesEs_iff.1 hes
      rw [h.es e he hne] at hends
      cases hends
    · refine Option.eq_none_iff_forall_ne_some.2 fun stem hstem => ?_
      obtain ⟨hne, hword, c, hlast, hvowel⟩ := iesStem?_eq_some_iff.1 hstem
      obtain ⟨front, hfront⟩ := List.getLast?_eq_some_iff.1 hlast
      have hpush : stem = (String.ofList front).push c := by
        rw [← String.toList_inj, hfront]
        simp
      rw [h.ies hne _ c (hpush ▸ hword)] at hvowel
      cases hvowel
  · rintro ⟨hes, hies⟩
    refine ⟨fun e he hne => ?_, fun hne stem c hword => ?_⟩
    · by_contra hends
      rw [takesEs_iff.2 ⟨e, he, hne, by simpa using hends⟩] at hes
      cases hes
    · by_contra hvowel
      have hstem : rules.iesStem? word = some (stem.push c) :=
        iesStem?_eq_some_iff.2 ⟨hne, hword, c, by simp, by simpa using hvowel⟩
      rw [hies] at hstem
      cases hstem

instance (rules : InflectionRules) (word : String) : Decidable (TakesDefault rules word) :=
  decidable_of_iff' _ takesDefault_iff

/-- The plural of a word goes by one of three rules. -/
theorem pluralize_cases (hc : rules.custom = .empty) (word : String) :
    (rules.takesEs word = true ∧ rules.pluralize word = word ++ "es") ∨
    (∃ stem, rules.iesStem? word = some stem ∧ rules.pluralize word = stem ++ "ies") ∨
    (TakesDefault rules word ∧ rules.pluralize word = word ++ rules.defaultSuffix) := by
  rw [pluralize, longestMatch?_of_custom_empty hc]
  by_cases hes : rules.takesEs word = true
  · exact Or.inl ⟨hes, by simp [hes]⟩
  · cases hies : rules.iesStem? word with
    | some stem => exact Or.inr (Or.inl ⟨stem, rfl, by simp [hes]⟩)
    | none =>
        rw [Bool.not_eq_true] at hes
        exact Or.inr (Or.inr ⟨takesDefault_iff.2 ⟨hes, hies⟩, by simp [hes]⟩)

theorem TakesDefault.pluralize_eq (h : TakesDefault rules word) (hc : rules.custom = .empty) :
    rules.pluralize word = word ++ rules.defaultSuffix := by
  obtain ⟨hes, hies⟩ := takesDefault_iff.1 h
  rcases pluralize_cases hc word with ⟨hes', -⟩ | ⟨stem, hstem, -⟩ | ⟨-, heq⟩
  · rw [hes] at hes'
    cases hes'
  · rw [hies] at hstem
    cases hstem
  · exact heq

/-! ## Singulars -/

theorem stem?_eq_some_iff : stem? ending word = some stem ↔ word = stem ++ ending ∧ stem ≠ "" := by
  simp [stem?, Option.filter_eq_some_iff, before?_eq_some_iff]

/-- A word is read as a plural in `ies`. -/
def LooksIes (rules : InflectionRules) (word : String) : Prop :=
  rules.iesSuffix ≠ "" ∧ ∃ stem, stem ≠ "" ∧ word = stem ++ "ies"

/-- A word has the look of a plural in `es`. -/
def LooksEs (rules : InflectionRules) (word : String) : Prop :=
  ∃ base, word = base ++ "es" ∧ ∃ e ∈ rules.esSuffixes, e ≠ "" ∧ endsWith base e = true

theorem singularize_ies (hc : rules.custom = .empty) (hies : rules.iesSuffix ≠ "")
    (hstem : stem ≠ "") : rules.singularize (stem ++ "ies") = stem ++ rules.iesSuffix := by
  have hread : stem? "ies" (stem ++ "ies") = some stem := stem?_eq_some_iff.2 ⟨rfl, hstem⟩
  rw [singularize, longestMatch?_of_custom_empty hc]
  simp [regularSingular?, hies, hread]

/-- What is not read as a plural in `ies` goes on to the other two rules. -/
theorem regularSingular?_of_not_looksIes (h : ¬ LooksIes rules word) :
    rules.regularSingular? word = ((stem? "es" word).filter rules.takesEs).or
      (if rules.defaultSuffix.isEmpty then none else stem? rules.defaultSuffix word) := by
  rw [regularSingular?]
  by_cases hies : rules.iesSuffix = ""
  · simp [hies]
  · have hnone : stem? "ies" word = none := by
      refine Option.eq_none_iff_forall_ne_some.2 fun stem hstem => h ⟨hies, stem, ?_⟩
      exact (stem?_eq_some_iff.1 hstem).symm
    simp [hnone]

theorem ne_empty_of_takesEs (h : rules.takesEs base = true) : base ≠ "" := by
  rintro rfl
  obtain ⟨e, -, hne, hends⟩ := takesEs_iff.1 h
  obtain ⟨t, ht⟩ := endsWith_iff.1 hends
  exact hne (String.append_eq_empty_iff.1 ht.symm).2

theorem singularize_es (hc : rules.custom = .empty) (h : ¬ LooksIes rules (base ++ "es"))
    (hes : rules.takesEs base = true) : rules.singularize (base ++ "es") = base := by
  have hread : stem? "es" (base ++ "es") = some base :=
    stem?_eq_some_iff.2 ⟨rfl, ne_empty_of_takesEs hes⟩
  have htaken : (some base).filter rules.takesEs = some base := Option.filter_eq_some_iff.2 ⟨rfl, hes⟩
  rw [singularize, longestMatch?_of_custom_empty hc]
  simp [regularSingular?_of_not_looksIes h, hread, htaken]

theorem singularize_default (hc : rules.custom = .empty) (hd : rules.defaultSuffix ≠ "")
    (hw : word ≠ "") (hies : ¬ LooksIes rules (word ++ rules.defaultSuffix))
    (hes : ¬ LooksEs rules (word ++ rules.defaultSuffix)) :
    rules.singularize (word ++ rules.defaultSuffix) = word := by
  have hread : stem? rules.defaultSuffix (word ++ rules.defaultSuffix) = some word :=
    stem?_eq_some_iff.2 ⟨rfl, hw⟩
  have hnone : (stem? "es" (word ++ rules.defaultSuffix)).filter rules.takesEs = none := by
    refine Option.eq_none_iff_forall_ne_some.2 fun base hbase => hes ?_
    obtain ⟨hstem, htakes⟩ := Option.filter_eq_some_iff.1 hbase
    exact ⟨base, (stem?_eq_some_iff.1 hstem).1, takesEs_iff.1 htakes⟩
  rw [singularize, longestMatch?_of_custom_empty hc]
  simp [regularSingular?_of_not_looksIes hies, hnone, hread, hd]

/-- A word comes back from its default ending if this shows no other rule's ending, or if it is read by the
rule for `ies` and that gives the same. -/
theorem singularize_append_default_iff (hc : rules.custom = .empty) (hd : rules.defaultSuffix ≠ "")
    (hw : word ≠ "") (h : TakesDefault rules word) :
    rules.singularize (word ++ rules.defaultSuffix) = word ↔
      (LooksIes rules (word ++ rules.defaultSuffix) → rules.iesSuffix ++ rules.defaultSuffix = "ies") ∧
      (LooksEs rules (word ++ rules.defaultSuffix) → LooksIes rules (word ++ rules.defaultSuffix)) := by
  by_cases hies : LooksIes rules (word ++ rules.defaultSuffix)
  · obtain ⟨hne, stem, hstem, heq⟩ := id hies
    have hback : stem ++ rules.iesSuffix = word ↔ rules.iesSuffix ++ rules.defaultSuffix = "ies" := by
      rw [← String.append_left_inj rules.defaultSuffix, heq, String.append_assoc,
        String.append_right_inj]
    rw [heq, singularize_ies hc hne hstem, ← heq, hback]
    exact ⟨fun h => ⟨fun _ => h, fun _ => hies⟩, fun h => h.1 hies⟩
  · by_cases hes : LooksEs rules (word ++ rules.defaultSuffix)
    · obtain ⟨base, heq, htakes⟩ := id hes
      have hne : base ≠ word := by
        rintro rfl
        have hnot := (takesDefault_iff.1 h).1
        rw [takesEs_iff.2 htakes] at hnot
        cases hnot
      have hback : rules.singularize (word ++ rules.defaultSuffix) = base := by
        rw [heq]
        exact singularize_es hc (heq ▸ hies) (takesEs_iff.2 htakes)
      rw [hback]
      exact ⟨fun h => absurd h hne, fun h => absurd (h.2 hes) hies⟩
    · have hback := singularize_default hc hd hw hies hes
      simp [hback, hies, hes]

/-! ## The default rules -/

theorem looksIes_append_s_iff :
    LooksIes {} (word ++ "s") ↔ 2 < word.length ∧ endsWith word "ie" = true := by
  have hies : ∀ stem, word ++ "s" = stem ++ "ies" ↔ word = stem ++ "ie" := fun stem => by
    rw [show "ies" = "ie" ++ "s" from rfl, ← String.append_assoc, String.append_left_inj]
  simp only [LooksIes, hies, endsWith_iff]
  constructor
  · rintro ⟨-, stem, hstem, rfl⟩
    refine ⟨?_, stem, rfl⟩
    have hpos : 0 < stem.length := by
      rw [Nat.pos_iff_ne_zero]
      simpa using hstem
    rw [String.length_append]
    exact Nat.lt_add_of_pos_left hpos
  · rintro ⟨hlong, stem, rfl⟩
    refine ⟨by decide, stem, ?_, rfl⟩
    rintro rfl
    exact absurd hlong (by decide)

theorem looksEs_append_s_iff : LooksEs {} (word ++ "s") ↔
    ∃ e ∈ ["se", "xe", "ze", "che", "she"], endsWith word e = true := by
  have hes : ∀ base, word ++ "s" = base ++ "es" ↔ word = base ++ "e" := fun base => by
    rw [show "es" = "e" ++ "s" from rfl, ← String.append_assoc, String.append_left_inj]
  have hends : ∀ e, (∃ base, word = base ++ "e" ∧ endsWith base e = true) ↔
      endsWith word (e ++ "e") = true := fun e => by
    simp only [endsWith_iff]
    constructor
    · rintro ⟨_, rfl, t, rfl⟩
      exact ⟨t, String.append_assoc⟩
    · rintro ⟨t, rfl⟩
      exact ⟨t ++ e, String.append_assoc.symm, t, rfl⟩
  have hmap : ["se", "xe", "ze", "che", "she"] =
      ({} : InflectionRules).esSuffixes.map (· ++ "e") := by decide
  have hne : ∀ e ∈ ({} : InflectionRules).esSuffixes, e ≠ "" := by decide
  simp only [LooksEs, hes, hmap, List.mem_map]
  constructor
  · rintro ⟨base, hword, e, he, -, hbase⟩
    exact ⟨e ++ "e", ⟨e, he, rfl⟩, (hends e).1 ⟨base, hword, hbase⟩⟩
  · rintro ⟨_, ⟨e, he, rfl⟩, hword⟩
    obtain ⟨base, hbase, htakes⟩ := (hends e).2 hword
    exact ⟨base, hbase, e, he, hne e he, htakes⟩

theorem getLast?_of_endsWith (h : endsWith word e = true) (he : e ≠ "") :
    word.toList.getLast? = e.toList.getLast? := by
  obtain ⟨t, rfl⟩ := endsWith_iff.1 h
  have hlast : e.toList.getLast? ≠ none := by
    rw [Ne, List.getLast?_eq_none_iff, String.toList_eq_nil_iff]
    exact he
  rw [String.toList_append, List.getLast?_append]
  exact Option.or_of_isSome (Option.isSome_iff_ne_none.2 hlast)

/-- The default ending may only mislead behind a final `e`. -/
theorem not_looks_of_getLast? (h : word.toList.getLast? ≠ some 'e') :
    ¬ LooksIes {} (word ++ "s") ∧ ¬ LooksEs {} (word ++ "s") := by
  rw [looksIes_append_s_iff, looksEs_append_s_iff]
  refine ⟨fun hie => h (getLast?_of_endsWith hie.2 (by decide)), ?_⟩
  rintro ⟨e, he, hends⟩
  have hlast : ∀ e ∈ ["se", "xe", "ze", "che", "she"], e ≠ "" ∧ e.toList.getLast? = some 'e' := by
    decide
  exact h ((getLast?_of_endsWith hends (hlast e he).1).trans (hlast e he).2)

/-- Under the default rules what takes `es` comes back, and it does not end in `e`. -/
theorem singularize_of_takesEs (h : takesEs {} word = true) :
    singularize {} (word ++ "es") = word ∧ word.toList.getLast? ≠ some 'e' := by
  obtain ⟨e, he, hne, hends⟩ := takesEs_iff.1 h
  have hlasts : ∀ e ∈ ({} : InflectionRules).esSuffixes,
      e.toList.getLast? ≠ some 'i' ∧ e.toList.getLast? ≠ some 'e' := by decide
  have hlast := getLast?_of_endsWith hends hne
  refine ⟨singularize_es rfl ?_ h, hlast ▸ (hlasts e he).2⟩
  rintro ⟨-, stem, -, heq⟩
  rw [show "ies" = "i" ++ "es" from rfl, ← String.append_assoc, String.append_left_inj] at heq
  have hi : word.toList.getLast? = some 'i' :=
    getLast?_of_endsWith (endsWith_iff.2 ⟨stem, heq⟩) (by decide)
  exact (hlasts e he).1 (hlast.symm.trans hi)

/-- Under the default rules what takes `ies` comes back, and it does not end in `e`. -/
theorem singularize_of_iesStem? (h : iesStem? {} word = some stem) :
    singularize {} (stem ++ "ies") = word ∧ word.toList.getLast? ≠ some 'e' := by
  obtain ⟨hies, rfl, c, hc, -⟩ := iesStem?_eq_some_iff.1 h
  have hne : stem ≠ "" := by
    rintro rfl
    cases hc
  refine ⟨singularize_ies rfl hies hne, ?_⟩
  rw [getLast?_of_endsWith (endsWith_iff.2 ⟨stem, rfl⟩) hies]
  decide

/-! ## Words that come back -/

/-- A word to which no other rule applies has the default ending in the plural. This is read back as the word,
unless it shows the ending of another rule: `ies` behind a stem, or else `es` behind a base that takes it. -/
theorem singularize_pluralize_iff (hc : rules.custom = .empty) (hd : rules.defaultSuffix ≠ "")
    (hw : word ≠ "") (h : TakesDefault rules word) :
    rules.pluralize word = word ++ rules.defaultSuffix ∧
    (rules.singularize (rules.pluralize word) = word ↔
      (LooksIes rules (word ++ rules.defaultSuffix) → rules.iesSuffix ++ rules.defaultSuffix = "ies") ∧
      (LooksEs rules (word ++ rules.defaultSuffix) → LooksIes rules (word ++ rules.defaultSuffix))) := by
  have hplural := h.pluralize_eq hc
  rw [hplural]
  exact ⟨rfl, singularize_append_default_iff hc hd hw h⟩

theorem type_comes_back :
    ({} : InflectionRules).custom = .empty ∧ ({} : InflectionRules).defaultSuffix ≠ "" ∧
      "type" ≠ "" ∧ TakesDefault {} "type" ∧ pluralize {} "type" = "types" ∧
      singularize {} (pluralize {} "type") = "type" := by
  have htakes : TakesDefault {} "type" := by decide +kernel
  have hies : ¬ LooksIes {} ("type" ++ "s") := by
    rw [looksIes_append_s_iff]
    decide +kernel
  have hes : ¬ LooksEs {} ("type" ++ "s") := by
    rw [looksEs_append_s_iff]
    decide +kernel
  obtain ⟨hplural, hback⟩ := singularize_pluralize_iff rfl (by decide) (by decide) htakes
  exact ⟨rfl, by decide, by decide, htakes, hplural,
    hback.2 ⟨fun h => absurd h hies, fun h => absurd h hes⟩⟩

/-- The plurals `movies` and `houses` have the default ending, and are read by the rules for `ies` and for
`es`. -/
theorem movie_house_misread :
    ({} : InflectionRules).custom = .empty ∧ ({} : InflectionRules).defaultSuffix ≠ "" ∧
      (TakesDefault {} "movie" ∧ singularize {} (pluralize {} "movie") ≠ "movie") ∧
      TakesDefault {} "house" ∧ singularize {} (pluralize {} "house") ≠ "house" :=
  ⟨rfl, by decide, by decide +kernel, by decide +kernel, by decide +kernel⟩

/-- Under the default rules a word comes back from its plural exactly if it is not empty, is not a longer
word in `ie`, and has none of the endings that make `es` with the default ending. -/
theorem default_singularize_pluralize_iff (word : String) :
    singularize {} (pluralize {} word) = word ↔
      word ≠ "" ∧ ¬ (2 < word.length ∧ endsWith word "ie" = true) ∧
        ∀ e ∈ ["se", "xe", "ze", "che", "she"], endsWith word e = false := by
  have hlooks : (¬ (2 < word.length ∧ endsWith word "ie" = true) ∧
      ∀ e ∈ ["se", "xe", "ze", "che", "she"], endsWith word e = false) ↔
      ¬ LooksIes {} (word ++ "s") ∧ ¬ LooksEs {} (word ++ "s") := by
    rw [looksIes_append_s_iff, looksEs_append_s_iff]
    simp
  rw [hlooks]
  rcases eq_or_ne word "" with rfl | hw
  · exact iff_of_false (by decide +kernel) fun h => h.1 rfl
  have hcustom : ({} : InflectionRules).custom = .empty := rfl
  rcases pluralize_cases hcustom word with ⟨hes, heq⟩ | ⟨stem, hstem, heq⟩ | ⟨htakes, heq⟩
  · obtain ⟨hback, hlast⟩ := singularize_of_takesEs hes
    rw [heq]
    exact iff_of_true hback ⟨hw, not_looks_of_getLast? hlast⟩
  · obtain ⟨hback, hlast⟩ := singularize_of_iesStem? hstem
    rw [heq]
    exact iff_of_true hback ⟨hw, not_looks_of_getLast? hlast⟩
  · have hy : ¬ ("y" ++ "s" = "ies") := by decide
    rw [heq, singularize_append_default_iff rfl (by decide) hw htakes]
    simp only [hy, imp_false, ne_eq, hw, not_false_eq_true, true_and]
    exact and_congr_right fun hies => imp_congr_right fun _ => iff_false_intro hies

end GraphRest.InflectionRules
