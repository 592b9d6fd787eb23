import GraphRest.Proofs.Data.SortedMap
import GraphRest.Proofs.Naming.Plural
import GraphRest.Proofs.Text.Basic
import Mathlib.Data.List.Nodup

/-!
# Custom endings

Which custom entry applies to a word, and how the other side of the entry leads back. Main statements: where no
plural ending is an ending of another one, every word with a custom plural is the singular of that plural,
and where no singular ending is an ending of another one, every custom singular has the plural it comes from;
the entry that applies is the one with the longest ending that fits, and of endings of one length the one
with the first key.
-/

namespace GraphRest.InflectionRules

open Text

section

variable {rules : InflectionRules} {side : Side} {word stem e e' : String}
  {entry x y : String × String} {entries : List (String × String)}

/-! ## Endings of one word -/

theorem endsWith_iff_suffix : endsWith word e = true ↔ e.toList <:+ word.toList := by
  rw [endsWith_iff]
  constructor
  · rintro ⟨t, rfl⟩
    exact ⟨t.toList, by simp⟩
  · rintro ⟨t, ht⟩
    refine ⟨String.ofList t, ?_⟩
    rw [← String.toList_inj]
    simp [ht]

/-- Of two endings of one word one is an ending of the other. -/
theorem endsWith_or_endsWith (h : endsWith word e = true) (h' : endsWith word e' = true) :
    endsWith e' e = true ∨ endsWith e e' = true := by
  simp only [endsWith_iff_suffix] at *
  exact List.suffix_or_suffix_of_suffix h h'

/-! ## The entry that applies -/

theorem applies_iff :
    applies side word entry = true ↔ side.of entry ≠ "" ∧ endsWith word (side.of entry) = true := by
  simp [applies]

theorem isSome_foldl_longer (entries : List (String × String)) :
    ∀ longest : Option (String × String),
      (entries.foldl (longer side) longest).isSome = (longest.isSome || !entries.isEmpty) := by
  induction entries with
  | nil => simp
  | cons e entries ih =>
      intro longest
      have hstep : (longer side longest e).isSome = true := by
        cases longest with
        | none => rfl
        | some current =>
            rw [longer]
            split <;> rfl
      rw [List.foldl_cons, ih, hstep]
      simp

theorem applies_of_longestMatch? (h : rules.longestMatch? side word = some entry) :
    applies side word entry = true := by
  have hmem := (mem_of_foldl_longer _ none h).resolve_left nofun
  exact (List.mem_filter.1 hmem).2

/-- An entry is found exactly for the words that some entry applies to. -/
theorem isSome_longestMatch?_iff : (rules.longestMatch? side word).isSome = true ↔
    ∃ entry ∈ rules.custom.entries, applies side word entry = true := by
  rw [longestMatch?, isSome_foldl_longer]
  simp

/-! ## One side for the other -/

/-- The side that replaces this one. -/
def Side.other : Side → Side
  | .singular => .plural
  | .plural => .singular

theorem pluralize_of_entry (h : rules.longestMatch? .singular (stem ++ entry.1) = some entry) :
    rules.pluralize (stem ++ entry.1) = stem ++ entry.2 := by
  have hstem : before? entry.1 (stem ++ entry.1) = some stem := before?_eq_some_iff.2 rfl
  rw [pluralize, h]
  simp only [hstem, Option.getD_some]

theorem singularize_of_entry (h : rules.longestMatch? .plural (stem ++ entry.2) = some entry) :
    rules.singularize (stem ++ entry.2) = stem ++ entry.1 := by
  have hstem : before? entry.2 (stem ++ entry.2) = some stem := before?_eq_some_iff.2 rfl
  rw [singularize, h]
  simp only [hstem, Option.getD_some]

/-- On a side of the custom entries no text that is not empty properly ends another one. -/
def NoProperEnding (rules : InflectionRules) (side : Side) : Prop :=
  ∀ x ∈ rules.custom.entries, ∀ y ∈ rules.custom.entries, side.of x ≠ "" →
    endsWith (side.of y) (side.of x) = true → side.of x = side.of y

instance (rules : InflectionRules) (side : Side) : Decidable (NoProperEnding rules side) :=
  inferInstanceAs (Decidable (∀ x ∈ rules.custom.entries, ∀ y ∈ rules.custom.entries,
    side.of x ≠ "" → endsWith (side.of y) (side.of x) = true → side.of x = side.of y))

/-- Then two entries with one word to apply to have one text there. -/
theorem NoProperEnding.of_eq (h : NoProperEnding rules side) (hx : x ∈ rules.custom.entries)
    (hy : y ∈ rules.custom.entries) (hax : applies side word x = true)
    (hay : applies side word y = true) : side.of x = side.of y := by
  obtain ⟨hxne, hxend⟩ := applies_iff.1 hax
  obtain ⟨hyne, hyend⟩ := applies_iff.1 hay
  rcases endsWith_or_endsWith hxend hyend with hends | hends
  · exact h x hx y hy hxne hends
  · exact (h y hy x hx hyne hends).symm

/-- If the texts of the side are distinct too, the entry is found by any word that it applies to. -/
theorem NoProperEnding.longestMatch?_eq (h : NoProperEnding rules side)
    (hdistinct : (rules.custom.entries.map side.of).Nodup) (hx : x ∈ rules.custom.entries)
    (hax : applies side word x = true) : rules.longestMatch? side word = some x := by
  obtain ⟨y, hy⟩ := Option.isSome_iff_exists.1 (isSome_longestMatch?_iff.2 ⟨x, hx, hax⟩)
  have htext : side.of y = side.of x :=
    h.of_eq (mem_of_longestMatch? hy) hx (applies_of_longestMatch? hy) hax
  rw [hy, List.inj_on_of_nodup_map hdistinct (mem_of_longestMatch? hy) hx htext]

/-- Of a word with its other ending the same entry is found. -/
theorem exists_exchange (hentry : rules.longestMatch? side word = some entry)
    (h : NoProperEnding rules side.other) (hdistinct : (rules.custom.entries.map side.other.of).Nodup)
    (hne : side.other.of entry ≠ "") :
    ∃ stem, word = stem ++ side.of entry ∧
      rules.longestMatch? side.other (stem ++ side.other.of entry) = some entry := by
  obtain ⟨stem, hword⟩ := endsWith_iff.1 (applies_iff.1 (applies_of_longestMatch? hentry)).2
  have hends : endsWith (stem ++ side.other.of entry) (side.other.of entry) = true :=
    endsWith_iff.2 ⟨stem, rfl⟩
  exact ⟨stem, hword, h.longestMatch?_eq hdistinct (mem_of_longestMatch? hentry)
    (applies_iff.2 ⟨hne, hends⟩)⟩

/-- A custom plural is undone where the replacements are distinct, not empty, and none properly ends another
one; a custom singular is undone where no key properly ends another one, if the entry that was chosen has
a key to put. The other rules have no part in it. -/
theorem custom_endings_invert (rules : InflectionRules) :
    ((∀ x ∈ rules.custom.entries, x.2 ≠ "") → (rules.custom.entries.map Prod.snd).Nodup →
      NoProperEnding rules .plural →
      ∀ word, (∃ x ∈ rules.custom.entries, x.1 ≠ "" ∧ endsWith word x.1 = true) →
        rules.singularize (rules.pluralize word) = word) ∧
    (NoProperEnding rules .singular →
      ∀ word, (∃ x ∈ rules.custom.entries, x.2 ≠ "" ∧ endsWith word x.2 = true) →
        (∀ chosen, rules.longestMatch? .plural word = some chosen → chosen.1 ≠ "") →
        rules.pluralize (rules.singularize word) = word) := by
  refine ⟨fun hne hdistinct hends word ⟨x, hx, hkey⟩ => ?_, fun hends word ⟨x, hx, hkey⟩ hchosen => ?_⟩
  · have happlies : applies .singular word x = true := applies_iff.2 hkey
    obtain ⟨entry, hentry⟩ := Option.isSome_iff_exists.1 (isSome_longestMatch?_iff.2 ⟨x, hx, happlies⟩)
    obtain ⟨stem, rfl, hback⟩ :=
      exists_exchange hentry hends hdistinct (hne _ (mem_of_longestMatch? hentry))
    calc rules.singularize (rules.pluralize (stem ++ entry.1))
        = rules.singularize (stem ++ entry.2) := by rw [pluralize_of_entry hentry]
      _ = stem ++ entry.1 := singularize_of_entry hback
  · have happlies : applies .plural word x = true := applies_iff.2 hkey
    obtain ⟨entry, hentry⟩ := Option.isSome_iff_exists.1 (isSome_longestMatch?_iff.2 ⟨x, hx, happlies⟩)
    obtain ⟨stem, rfl, hback⟩ :=
      exists_exchange hentry hends rules.custom.nodup_keys (hchosen entry hentry)
    calc rules.pluralize (rules.singularize (stem ++ entry.2))
        = rules.pluralize (stem ++ entry.1) := by rw [singularize_of_entry hentry]
      _ = stem ++ entry.2 := pluralize_of_entry hback

/-- Rules under which two keys apply to one word. -/
def kinship : InflectionRules where
  custom := .ofList [("child", "children"), ("person", "people"), ("son", "sons")]

/-- Rules under which two replacements apply to one word. -/
def household : InflectionRules where
  custom := .ofList [("lady", "women"), ("man", "men")]

theorem kinship_household_invert :
    ((∀ x ∈ kinship.custom.entries, x.2 ≠ "") ∧ (kinship.custom.entries.map Prod.snd).Nodup ∧
      NoProperEnding kinship .plural ∧
      (∃ x ∈ kinship.custom.entries, x.1 ≠ "" ∧ endsWith "salesperson" x.1 = true) ∧
      kinship.singularize (kinship.pluralize "salesperson") = "salesperson") ∧
    NoProperEnding household .singular ∧
      (∃ x ∈ household.custom.entries, x.2 ≠ "" ∧ endsWith "noblewomen" x.2 = true) ∧
      (∀ chosen, household.longestMatch? .plural "noblewomen" = some chosen → chosen.1 ≠ "") ∧
      household.pluralize (household.singularize "noblewomen") = "noblewomen" := by
  have hplurals : (∀ x ∈ kinship.custom.entries, x.2 ≠ "") ∧
      (kinship.custom.entries.map Prod.snd).Nodup ∧ NoProperEnding kinship .plural := by
    decide +kernel
  have hperson : ∃ x ∈ kinship.custom.entries, x.1 ≠ "" ∧ endsWith "salesperson" x.1 = true := by
    decide +kernel
  have hkeys : NoProperEnding household .singular := by decide +kernel
  have hwomen : ∃ x ∈ household.custom.entries, x.2 ≠ "" ∧ endsWith "noblewomen" x.2 = true := by
    decide +kernel
  have hchosen : ∀ chosen, household.longestMatch? .plural "noblewomen" = some chosen →
      chosen.1 ≠ "" := by
    have hlady : household.longestMatch? .plural "noblewomen" = some ("lady", "women") := by
      decide +kernel
    rw [hlady]
    rintro _ ⟨⟩
    decide
  exact ⟨⟨hplurals.1, hplurals.2.1, hplurals.2.2, hperson,
      (custom_endings_invert kinship).1 hplurals.1 hplurals.2.1 hplurals.2.2 _ hperson⟩,
    hkeys, hwomen, hchosen, (custom_endings_invert household).2 hkeys _ hwomen hchosen⟩

end

/-! ## The longest ending

The entries of a table stand in byte order of their keys, and the search goes through them once. What it has
found so far is the longest ending among those it went through, and of endings of one length the one with the
first key, since a later entry has to be longer to take its place. -/

variable {rules : InflectionRules} {side : Side} {word : String} {best x y : String × String}
  {seen : List (String × String)}

/-- The text on a side of an entry is not empty, and the word ends in it. -/
structure Fits (side : Side) (word : String) (entry : String × String) : Prop where
  ne_empty : side.of entry ≠ ""
  ending : ∃ stem, word = stem ++ side.of entry

/-- Of some entries this one has the longest text on a side, in bytes, and of several as long as that the first
key in byte order. -/
structure Leads (side : Side) (entries : List (String × String)) (best : String × String) : Prop where
  mem : best ∈ entries
  longest : ∀ x ∈ entries, (side.of x).utf8ByteSize ≤ (side.of best).utf8ByteSize
  first : ∀ x ∈ entries, (side.of x).utf8ByteSize = (side.of best).utf8ByteSize → x ≠ best →
    bytes best.1 < bytes x.1

theorem applies_iff_fits : applies side word x = true ↔ Fits side word x := by
  rw [applies_iff, endsWith_iff]
  exact ⟨fun ⟨hne, hends⟩ => ⟨hne, hends⟩, fun ⟨hne, hends⟩ => ⟨hne, hends⟩⟩

/-! ## One more entry -/

theorem leads_singleton (side : Side) (x : String × String) : Leads side [x] x where
  mem := List.mem_singleton_self x
  longest y hy := by rw [List.mem_singleton.1 hy]
  first y hy _ hne := absurd (List.mem_singleton.1 hy) hne

/-- An entry behind the others leaves one in the lead whose text is as long as its own. -/
theorem Leads.concat_of_le (h : Leads side seen best) (hbehind : ∀ y ∈ seen, y.1 < x.1)
    (hle : (side.of x).utf8ByteSize ≤ (side.of best).utf8ByteSize) : Leads side (seen ++ [x]) best where
  mem := List.mem_append_left _ h.mem
  longest y hy := by
    rcases List.mem_append.1 hy with hy | hy
    · exact h.longest y hy
    · rw [List.mem_singleton.1 hy]
      exact hle
  first y hy heq hne := by
    rcases List.mem_append.1 hy with hy | hy
    · exact h.first y hy heq hne
    · rw [List.mem_singleton.1 hy]
      exact bytes_lt_iff.2 (hbehind best h.mem)

/-- A longer one takes the lead, and none of the others is as long. -/
theorem Leads.concat_of_lt (h : Leads side seen best)
    (hlt : (side.of best).utf8ByteSize < (side.of x).utf8ByteSize) : Leads side (seen ++ [x]) x where
  mem := List.mem_append_right _ (List.mem_singleton_self x)
  longest y hy := by
    rcases List.mem_append.1 hy with hy | hy
    · exact ((h.longest y hy).trans_lt hlt).le
    · rw [List.mem_singleton.1 hy]
  first y hy heq hne := by
    rcases List.mem_append.1 hy with hy | hy
    · exact absurd heq ((h.longest y hy).trans_lt hlt).ne
    · exact absurd (List.mem_singleton.1 hy) hne

theorem exists_longer_leads (h : Leads side seen best) (hbehind : ∀ y ∈ seen, y.1 < x.1) :
    ∃ next, longer side (some best) x = some next ∧ Leads side (seen ++ [x]) next := by
  rw [longer]
  split
  · rename_i hle
    exact ⟨best, rfl, h.concat_of_le hbehind hle⟩
  · rename_i hlt
    exact ⟨x, rfl, h.concat_of_lt (Nat.lt_of_not_le hlt)⟩

/-! ## All entries -/

/-- The search through entries in byte order ends at the one that leads them. -/
theorem exists_foldl_longer_leads {entries : List (String × String)} (hne : entries ≠ [])
    (hsorted : entries.Pairwise fun x y => x.1 < y.1) :
    ∃ best, entries.foldl (longer side) none = some best ∧ Leads side entries best := by
  induction entries using List.reverseRecOn with
  | nil => exact absurd rfl hne
  | append_singleton seen x ih =>
      rw [List.pairwise_append] at hsorted
      obtain ⟨hseen, -, hbehind⟩ := hsorted
      have hbehind' : ∀ y ∈ seen, y.1 < x.1 := fun y hy => hbehind y hy x (List.mem_singleton_self x)
      rw [List.foldl_append, List.foldl_cons, List.foldl_nil]
      by_cases hnil : seen = []
      · subst hnil
        exact ⟨x, rfl, leads_singleton side x⟩
      · obtain ⟨best, hbest, hleads⟩ := ih hnil hseen
        rw [hbest]
        exact exists_longer_leads hleads hbehind'

/-- No two entries lead: they would be equally long and each have the first key. -/
theorem Leads.eq {entries : List (String × String)} (hx : Leads side entries x)
    (hy : Leads side entries y) : x = y := by
  have hlength : (side.of x).utf8ByteSize = (side.of y).utf8ByteSize :=
    Nat.le_antisymm (hy.longest x hx.mem) (hx.longest y hy.mem)
  by_contra hne
  exact List.lt_asymm (hx.first y hy.mem hlength.symm (Ne.symm hne)) (hy.first x hx.mem hlength hne)

/-- The custom entries that apply to a word, in byte order of their keys. -/
def applying (rules : InflectionRules) (side : Side) (word : String) : List (String × String) :=
  rules.custom.entries.filter (applies side word)

theorem mem_applying_iff :
    x ∈ rules.applying side word ↔ x ∈ rules.custom.entries ∧ Fits side word x := by
  rw [applying, List.mem_filter, applies_iff_fits]

theorem longestMatch?_eq_none_iff :
    rules.longestMatch? side word = none ↔ ∀ x ∈ rules.custom.entries, ¬ Fits side word x := by
  rw [← Option.not_isSome_iff_eq_none, isSome_longestMatch?_iff]
  simp only [applies_iff_fits, not_exists, not_and]

theorem longestMatch?_eq_some_iff :
    rules.longestMatch? side word = some x ↔ Leads side (rules.applying side word) x := by
  have hleads (y : String × String) (hy : y ∈ rules.applying side word) :
      ∃ best, rules.longestMatch? side word = some best ∧
        Leads side (rules.applying side word) best :=
    exists_foldl_longer_leads (List.ne_nil_of_mem hy) (rules.custom.sorted.filter _)
  constructor
  · intro h
    have hx : x ∈ rules.applying side word :=
      List.mem_filter.2 ⟨mem_of_longestMatch? h, applies_of_longestMatch? h⟩
    obtain ⟨best, hbest, hbestLeads⟩ := hleads x hx
    rw [h] at hbest
    cases hbest
    exact hbestLeads
  · intro h
    obtain ⟨best, hbest, hbestLeads⟩ := hleads x h.mem
    rw [hbest, hbestLeads.eq h]

/-- No custom entry is found just if none has on its side an ending of the word that is not empty. The one that is
found has such an ending, the longest in bytes, and of the entries with an ending as long the first key in byte
order. -/
theorem longest_match_exact (rules : InflectionRules) (side : Side) (word : String) :
    (rules.longestMatch? side word = none ↔ ∀ x ∈ rules.custom.entries, ¬ Fits side word x) ∧
    ∀ entry, rules.longestMatch? side word = some entry ↔
      entry ∈ rules.custom.entries ∧ Fits side word entry ∧
      (∀ x ∈ rules.custom.entries, Fits side word x →
        (side.of x).utf8ByteSize ≤ (side.of entry).utf8ByteSize) ∧
      ∀ x ∈ rules.custom.entries, Fits side word x →
        (side.of x).utf8ByteSize = (side.of entry).utf8ByteSize → x ≠ entry →
          bytes entry.1 < bytes x.1 := by
  refine ⟨longestMatch?_eq_none_iff, fun entry => longestMatch?_eq_some_iff.trans ?_⟩
  constructor
  · intro h
    obtain ⟨hmem, hfits⟩ := mem_applying_iff.1 h.mem
    refine ⟨hmem, hfits, ?_, ?_⟩
    · intro x hx hxfits
      exact h.longest x (mem_applying_iff.2 ⟨hx, hxfits⟩)
    · intro x hx hxfits
      exact h.first x (mem_applying_iff.2 ⟨hx, hxfits⟩)
  · rintro ⟨hmem, hfits, hlongest, hfirst⟩
    refine ⟨mem_applying_iff.2 ⟨hmem, hfits⟩, ?_, ?_⟩
    · intro x hx
      obtain ⟨hx, hxfits⟩ := mem_applying_iff.1 hx
      exact hlongest x hx hxfits
    · intro x hx
      obtain ⟨hx, hxfits⟩ := mem_applying_iff.1 hx
      exact hfirst x hx hxfits

/-- The longer of two endings counts, and of two keys with one replacement the first. -/
example :
    let rules : InflectionRules :=
      { custom := .ofList [("moose", "geese"), ("goose", "geese"), ("cheese", "eese")] }
    rules.longestMatch? .plural "mongeese" = some ("goose", "geese") := by decide +kernel

end GraphRest.InflectionRules
