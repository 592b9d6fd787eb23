import GraphRest.Proofs.Data.Datum
import GraphRest.Settings.Environment

/-!
# Records from the environment

The settings of an environment are a record, and every record in them has each name once.
-/

namespace GraphRest.Environment

open Datum

/-! ## Values of variables -/

/-- What is taken off a text with some fuel has each name once in every record. -/
structure TakesLawful (fuel : Nat) : Prop where
  value : ∀ {s r d}, take fuel s = some (d, r) → d.Lawful
  items : ∀ {s r ds}, takeItems fuel s = some (ds, r) → ∀ d ∈ ds, d.Lawful
  entries : ∀ {s r es}, takeEntries fuel s = some (es, r) → ∀ x ∈ es, x.2.Lawful

variable {fuel : Nat} {s r : List Char}

theorem lawful_wordDatum (word : List Char) : (wordDatum word).Lawful := by
  unfold wordDatum
  dsimp only
  split
  · exact .float _
  · exact .whole _
  · split
    · split
      · exact .negative _
      · exact .text _
    · exact .text _

theorem TakesLawful.value_succ (ih : TakesLawful fuel) {d : Datum} (h : take (fuel + 1) s = some (d, r)) :
    d.Lawful := by
  rw [take] at h
  dsimp only at h
  split at h
  · cases h
    exact .bool _
  · cases h
    exact .bool _
  · obtain ⟨⟨d', s'⟩, hd, heq⟩ := Option.bind_eq_some_iff.1 h
    obtain ⟨⟨ds, s''⟩, hds, hmk⟩ := Option.map_eq_some_iff.1 hd
    cases heq
    cases hmk
    exact .list (ih.items hds)
  · obtain ⟨⟨d', s'⟩, hd, heq⟩ := Option.bind_eq_some_iff.1 h
    obtain ⟨⟨es, s''⟩, hes, hmk⟩ := Option.map_eq_some_iff.1 hd
    cases heq
    cases hmk
    exact lawful_ofEntries (ih.entries hes)
  · obtain ⟨⟨d', s'⟩, hd, heq⟩ := Option.bind_eq_some_iff.1 h
    obtain ⟨⟨text, s''⟩, -, hmk⟩ := Option.map_eq_some_iff.1 hd
    cases heq
    cases hmk
    exact .text _
  · cases h
    exact .char _
  · cases h
  · cases h
    exact lawful_wordDatum _

theorem TakesLawful.items_succ (ih : TakesLawful fuel) {ds : List Datum}
    (h : takeItems (fuel + 1) s = some (ds, r)) : ∀ d ∈ ds, d.Lawful := by
  unfold takeItems at h
  split at h
  · cases h
    exact List.forall_mem_nil _
  · obtain ⟨⟨d, s'⟩, hd, h⟩ := Option.bind_eq_some_iff.1 h
    dsimp only at h
    split at h
    · obtain ⟨⟨ds', s''⟩, hds, heq⟩ := Option.bind_eq_some_iff.1 h
      cases heq
      exact List.forall_mem_cons.2 ⟨ih.value hd, ih.items hds⟩
    · cases h
      exact List.forall_mem_singleton.2 (ih.value hd)
    · cases h

theorem TakesLawful.entries_succ (ih : TakesLawful fuel) {es : List (String × Datum)}
    (h : takeEntries (fuel + 1) s = some (es, r)) : ∀ x ∈ es, x.2.Lawful := by
  unfold takeEntries at h
  split at h
  · cases h
    exact List.forall_mem_nil _
  · obtain ⟨⟨name, s'⟩, -, h⟩ := Option.bind_eq_some_iff.1 h
    dsimp only at h
    split at h
    · obtain ⟨⟨d, s''⟩, hd, h⟩ := Option.bind_eq_some_iff.1 h
      dsimp only at h
      split at h
      · obtain ⟨⟨es', s'''⟩, hes, heq⟩ := Option.bind_eq_some_iff.1 h
        cases heq
        exact List.forall_mem_cons.2 ⟨ih.value hd, ih.entries hes⟩
      · cases h
        exact List.forall_mem_singleton.2 (ih.value hd)
      · cases h
    · cases h

theorem takesLawful (fuel : Nat) : TakesLawful fuel := by
  induction fuel with
  | zero => exact ⟨nofun, nofun, nofun⟩
  | succ fuel ih => exact ⟨ih.value_succ, ih.items_succ, ih.entries_succ⟩

theorem lawful_datumOf (value : String) : (datumOf value).Lawful := by
  unfold datumOf
  dsimp only
  split
  · exact (takesLawful _).value ‹_›
  · exact .text _

/-! ## Settings of an environment -/

theorem lawful_nested {d : Datum} (hd : d.Lawful) (path : List String) : (nested path d).Lawful := by
  induction path with
  | nil => exact hd
  | cons name path ih => exact .fields (List.pairwise_singleton ..) (List.forall_mem_singleton.2 ih)

theorem cutAtPoints_ne_nil (s : List Char) : cutAtPoints s ≠ [] := by
  cases s with
  | nil => nofun
  | cons c s =>
      unfold cutAtPoints
      split
      · nofun
      · nofun
      · split <;> nofun

/-- A variable sets a field; it never stands for the settings as a whole. -/
theorem exists_cons_of_path? {name : String} {path : List String} (h : path? name = some path) :
    ∃ part rest, path = part :: rest := by
  refine List.exists_cons_of_ne_nil ?_
  unfold path? at h
  obtain ⟨text, -, h⟩ := Option.bind_eq_some_iff.1 h
  dsimp only at h
  split at h
  · cases h
  · cases h
    simpa using cutAtPoints_ne_nil _

/-- The settings of an environment are a record, with each name once in every record inside. -/
theorem exists_settings (pairs : List (String × String)) :
    (∃ entries, settings pairs = .fields entries) ∧ (settings pairs).Lawful := by
  unfold settings
  induction pairs using List.reverseRecOn with
  | nil => exact ⟨⟨[], rfl⟩, .fields List.nodup_nil (List.forall_mem_nil _)⟩
  | append_singleton pairs x ih =>
      obtain ⟨⟨entries, heq⟩, hlawful⟩ := ih
      rw [List.foldl_append, List.foldl_cons, List.foldl_nil]
      dsimp only
      split
      · rename_i path hpath
        refine ⟨?_, lawful_laidOver (lawful_nested (lawful_datumOf x.2) path) hlawful⟩
        obtain ⟨part, rest, rfl⟩ := exists_cons_of_path? hpath
        rw [heq, nested, laidOver]
        exact ⟨_, rfl⟩
      · exact ⟨⟨entries, heq⟩, hlawful⟩

end GraphRest.Environment
